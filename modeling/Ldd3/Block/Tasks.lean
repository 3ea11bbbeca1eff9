import Ldd3.Base.Overlay
import Ldd3.Base.Tasks
import Ldd3.Block.Bio

/-!
Bios that run at the same time. `block/bdev.c` installs `bdev_request` with `blk_queue_make_request`,
so that every submitter runs it itself, and it takes no lock. A task goes through the range check,
the loop over the segments and in each segment through `memcpy`, one byte a step.

Two bios conflict if they share a byte and one of them writes. As long as the submitters keep
conflicting bios apart, the disk needs no lock: every bio returns what it returns when the bios run
one after the other in the order of their `bio_endio`.
-/

namespace Ldd3.Block.Tasks

open Base.Cells Base.Overlay Base.Tasks Base.Words

/-- A finished bio with what is then in its segments and the status it ended with. -/
structure Entry where
  bio : Bio
  segs : List (List UInt8)
  status : Except Errno Unit

/-- `log` is not in the source: the bios in the order of their `bio_endio`. -/
structure Shared where
  data : Int → UInt8
  log : List Entry

-- `head` is the loop over the segments, `copy` is inside `memcpy` with `cur` copied of `seg`
inductive Pc where
  | idle
  | check (b : Bio)
  | head (b : Bio) (buf : Int) (done todo : List (List UInt8))
  | copy (b : Bio) (buf : Int) (done : List (List UInt8)) (cur seg : List UInt8) (todo : List (List UInt8))
  | fail (b : Bio) (segs : List (List UInt8))
  | returned

inductive PcStep (size : Nat) : Shared → Pc → Shared → Pc → Unit → Prop where
  | submit (s b) : PcStep size s .idle s (.check b) ()
  | reject (s b) (outside : (b.sector * 512 % 2 ^ 64 + b.size) % 2 ^ 64 > size) :
      PcStep size s (.check b) s (.fail b b.segs) ()
  | accept (s b) (inside : ¬ (b.sector * 512 % 2 ^ 64 + b.size) % 2 ^ 64 > size) :
      PcStep size s (.check b) s (.head b ((b.sector * 512 % 2 ^ 64 : Nat) : Int) [] b.segs) ()
  | segment (s b buf done seg todo) :
      PcStep size s (.head b buf done (seg :: todo)) s (.copy b buf done [] seg todo) ()
  | readByte (s b buf done cur seg todo) (dir : bioDataDir b = 2 ∨ bioDataDir b = 0)
      (more : cur.length < seg.length) :
      PcStep size s (.copy b buf done cur seg todo) s
        (.copy b buf done (cur ++ [s.data (buf + (cur.length : Int))]) seg todo) ()
  | writeByte (s b buf done cur seg todo byte) (dir : bioDataDir b = 1) (more : seg[cur.length]? = some byte) :
      PcStep size s (.copy b buf done cur seg todo)
        { s with data := Function.update s.data (buf + (cur.length : Int)) byte }
        (.copy b buf done (cur ++ [byte]) seg todo) ()
  | unknown (s b buf done cur seg todo) (read : ¬ (bioDataDir b = 2 ∨ bioDataDir b = 0)) (write : bioDataDir b ≠ 1) :
      PcStep size s (.copy b buf done cur seg todo) s (.fail b (done ++ (cur ++ seg.drop cur.length) :: todo)) ()
  | next (s b buf done cur seg todo) (whole : cur.length = seg.length) :
      PcStep size s (.copy b buf done cur seg todo) s (.head b (buf + (seg.length : Int)) (done ++ [cur]) todo) ()
  | endio (s b buf done) :
      PcStep size s (.head b buf done []) { s with log := s.log ++ [⟨b, done, .ok ()⟩] } .returned ()
  | ioError (s b segs) :
      PcStep size s (.fail b segs) { s with log := s.log ++ [⟨b, segs, .error Errno.EIO⟩] } .returned ()
  | back (s) : PcStep size s .returned s .idle ()

def program (size : Nat) : Program Shared Pc Unit := ⟨PcStep size, fun _ x => x⟩

def loaded (ι : Type*) (d : Bdev) : Config Shared Pc ι := ⟨⟨d.data, []⟩, fun _ => .idle⟩

/-! ### Bios in flight -/

/-- The bio whose segments the task is going through. -/
def Pc.flying : Pc → Option Bio
  | .head b _ _ _ | .copy b _ _ _ _ _ => some b
  | _ => none

/-- The bytes it has moved. -/
def Pc.moved : Pc → List UInt8
  | .head _ _ done _ => done.flatten
  | .copy _ _ done cur _ _ => done.flatten ++ cur
  | _ => []

def Pc.patch (x : Pc) : Patch UInt8 :=
  match x.flying with
  | some b => if bioDataDir b = 1 then ⟨b.start, x.moved⟩ else ⟨b.start, []⟩
  | none => ⟨0, []⟩

def Conflict (b b' : Bio) : Prop :=
  (bioDataDir b = 1 ∨ bioDataDir b' = 1) ∧ b.start < b'.start + b'.size ∧ b'.start < b.start + b.size

variable {ι : Type*} [DecidableEq ι] {c : Config Shared Pc ι} {size : Nat}

/-- What is asked of the submitters: no byte range wraps around the 64-bit offset, and two bios that
conflict are not in flight together. -/
structure Orderly (c : Config Shared Pc ι) : Prop where
  noWrap : ∀ t b, c.task t = .check b → b.sector * 512 + b.size < 2 ^ 64
  apart : ∀ t u b b', t ≠ u → (c.task t).flying = some b → (c.task u).flying = some b' → ¬ Conflict b b'

/-! ### One bio -/

/-- Where in its segments a bio in flight is. -/
structure Place (size : Nat) (b : Bio) (buf : Int) (done rest : List (List UInt8)) : Prop where
  fits : b.Fits size
  passed : ∃ gone, b.segs = gone ++ rest ∧ done.map List.length = gone.map List.length ∧
    buf = b.start + (gone.flatten.length : Int) ∧ (bioDataDir b = 1 → done = gone)

/-- How far it has come: `base` is the disk without the bios in flight. -/
structure Way (size : Nat) (base : Int → UInt8) (b : Bio) (buf : Int) (done rest : List (List UInt8))
    (cur : List UInt8) :
    Prop extends Place size b buf done rest where
  read : bioDataDir b = 0 → done.flatten ++ cur = fetch base b.start (done.flatten ++ cur).length

def Sound (size : Nat) (base : Int → UInt8) : Pc → Prop
  | .head b buf done todo => Way size base b buf done todo []
  | .copy b buf done cur seg todo =>
    Way size base b buf done (seg :: todo) cur ∧ cur.length ≤ seg.length ∧
      (bioDataDir b = 1 → cur = seg.take cur.length)
  | .fail b segs => segs = b.segs ∧ ¬ b.Fits size ∧ b.sector * 512 + b.size < 2 ^ 64
  | _ => True

variable {base : Int → UInt8} {b : Bio} {buf : Int} {done rest : List (List UInt8)} {cur : List UInt8}

theorem length_flatten_eq {xs ys : List (List UInt8)} (same : xs.map List.length = ys.map List.length) :
    xs.flatten.length = ys.flatten.length := by
  rw [List.length_flatten, List.length_flatten, same]

theorem Place.buf_eq (place : Place size b buf done rest) : buf = b.start + (done.flatten.length : Int) := by
  obtain ⟨gone, _, lengths, position, _⟩ := place.passed
  rw [length_flatten_eq lengths]
  exact position

theorem Place.total (place : Place size b buf done rest) :
    done.flatten.length + rest.flatten.length = b.size := by
  obtain ⟨gone, split, lengths, _, _⟩ := place.passed
  rw [length_flatten_eq lengths, ← b.length_flatten, split, List.flatten_append, List.length_append]

theorem Place.begin (fits : b.Fits size) : Place size b (b.sector * 512 : Nat) [] b.segs :=
  ⟨fits, [], rfl, rfl, by simp [Bio.start], fun _ => rfl⟩

theorem Place.next {seg : List UInt8} (place : Place size b buf done (seg :: rest)) (whole : cur.length = seg.length)
    (copied : bioDataDir b = 1 → cur = seg.take cur.length) :
    Place size b (buf + (seg.length : Int)) (done ++ [cur]) rest := by
  obtain ⟨gone, split, lengths, position, written⟩ := place.passed
  refine ⟨place.fits, gone ++ [seg], by simp [split], by simp [lengths, whole], ?_, fun write => ?_⟩
  · rw [position, List.flatten_append, List.length_append, List.flatten_singleton]
    omega
  · have same := copied write
    rw [whole, List.take_length] at same
    rw [written write, same]

theorem segs_ext {xs ys : List (List UInt8)} (lengths : xs.map List.length = ys.map List.length)
    (bytes : xs.flatten = ys.flatten) : xs = ys := by
  induction xs generalizing ys with
  | nil => cases ys with
    | nil => rfl
    | cons y ys => cases lengths
  | cons x xs ih => cases ys with
    | nil => cases lengths
    | cons y ys =>
      rw [List.map_cons, List.map_cons, List.cons.injEq] at lengths
      obtain ⟨first, rest⟩ := List.append_inj bytes lengths.1
      rw [first, ih lengths.2 rest]

theorem fits_iff (noWrap : b.sector * 512 + b.size < 2 ^ 64) :
    ¬ (b.sector * 512 % 2 ^ 64 + b.size) % 2 ^ 64 > size ↔ b.Fits size := by
  rw [Bio.start_mod noWrap, Nat.mod_eq_of_lt noWrap]
  exact Nat.not_lt

/-- The whole way gives what the bio gives run alone on `base`. -/
theorem Way.arrives (way : Way size base b buf done [] []) (small : size < 2 ^ 64) :
    (serveBio size base b).segs = done ∧ (serveBio size base b).endio = [.ok ()] ∧
      (serveBio size base b).data = if bioDataDir b = 1 then blit base b.start done.flatten else base := by
  obtain ⟨gone, split, lengths, _, written⟩ := way.passed
  have whole : b.segs = gone := by rw [split, List.append_nil]
  rcases bioDataDir_cases b with read | write
  · obtain ⟨segs, copies, served, sizes, bytes, _⟩ := serveBio_read base way.fits small read
    have got := way.read read
    have total : done.flatten.length = b.size := by rw [length_flatten_eq lengths, ← whole, b.length_flatten]
    rw [List.append_nil, total] at got
    have same : segs = done := segs_ext (sizes.trans (by rw [whole, lengths])) (bytes.trans got.symm)
    rw [served, same, if_neg (by omega)]
    exact ⟨rfl, rfl, rfl⟩
  · obtain ⟨copies, served, _⟩ := serveBio_write base way.fits small write
    rw [served, if_pos write, written write, whole]
    exact ⟨rfl, rfl, rfl⟩

/-- What lies in the range of a bio in flight is the base's, if it does not write itself. -/
theorem Pc.patch_covers {x : Pc} {a : Int} (sound : Sound size base x) (covered : x.patch.Covers a) :
    ∃ b, x.flying = some b ∧ bioDataDir b = 1 ∧ b.start ≤ a ∧ a < b.start + b.size := by
  cases x with
  | head b buf done todo =>
    have way : Way size base b buf done todo [] := sound
    have total := way.total
    simp only [Pc.patch, Pc.flying, Pc.moved] at covered
    by_cases write : bioDataDir b = 1
    · rw [if_pos write] at covered
      obtain ⟨low, high⟩ := covered
      exact ⟨b, rfl, write, low, by simp only at high; omega⟩
    · rw [if_neg write] at covered
      obtain ⟨low, high⟩ := covered
      simp only [List.length_nil] at low high
      omega
  | copy b buf done cur seg todo =>
    obtain ⟨way, bound, _⟩ := sound
    have total := way.total
    rw [List.flatten_cons, List.length_append] at total
    simp only [Pc.patch, Pc.flying, Pc.moved] at covered
    by_cases write : bioDataDir b = 1
    · rw [if_pos write] at covered
      obtain ⟨low, high⟩ := covered
      exact ⟨b, rfl, write, low, by simp only [List.length_append] at high; omega⟩
    · rw [if_neg write] at covered
      obtain ⟨low, high⟩ := covered
      simp only [List.length_nil] at low high
      omega
  | _ =>
    obtain ⟨low, high⟩ := covered
    simp only [Pc.patch, Pc.flying, List.length_nil] at low high
    omega

/-! ### Whole runs -/

theorem outcomes_snoc (d : Bdev) (bios : List Bio) (b : Bio) :
    d.outcomes (bios ++ [b]) = d.outcomes bios ++ [(d.after bios).bdevRequest b] := by
  induction bios generalizing d with
  | nil => rfl
  | cons first rest ih =>
    simp only [List.cons_append, Bdev.outcomes, ih]
    rfl

/-- The disk after the finished bios, run one after the other. -/
def settled (d : Bdev) (log : List Entry) : Int → UInt8 := (d.after (log.map Entry.bio)).data

structure Inv (d : Bdev) (c : Config Shared Pc ι) : Prop where
  answered : c.shared.log.map (fun e => (e.segs, [e.status])) =
    (d.outcomes (c.shared.log.map Entry.bio)).map fun o => (o.segs, o.endio)
  sound : ∀ t, Sound d.size (settled d c.shared.log) (c.task t)
  overlaid : Overlaid (settled d c.shared.log) c.shared.data fun t => (c.task t).patch

variable {d : Bdev} {t : ι} {s' : Shared} {x' : Pc}

theorem others_after {u : ι} (other : u ≠ t) : ((program size).after c t s' x' ()).task u = c.task u :=
  after_other other s' x' ()

/-- A step that leaves the shared state and the patch of its task. -/
theorem Inv.keep (inv : Inv d c) (sound : Sound d.size (settled d c.shared.log) x')
    (patch : x'.patch = (c.task t).patch ∨ (x'.patch.cells = [] ∧ (c.task t).patch.cells = [])) :
    Inv d ((program d.size).after c t c.shared x' ()) := by
  refine ⟨inv.answered, ?_, ?_⟩
  · intro u
    by_cases mine : u = t
    · subst u
      rw [after_same]
      exact sound
    · rw [others_after mine]
      exact inv.sound u
  · have others : ∀ u, u ≠ t → (((program d.size).after c t c.shared x' ()).task u).patch = (c.task u).patch := by
      intro u other
      rw [others_after other]
    rcases patch with same | ⟨empty', empty⟩
    · refine inv.overlaid.same fun u => ?_
      by_cases mine : u = t
      · subst u
        rw [after_same, same]
      · exact others u mine
    · have retired := inv.overlaid.retire (t := t)
        (fun u => (((program d.size).after c t c.shared x' ()).task u).patch)
        (by simp only [after_same]; exact empty') others
      simp only [empty, blit_nil] at retired
      exact retired

omit [DecidableEq ι] in
/-- Nobody else has written in the range of a bio in flight. -/
theorem Inv.apart (inv : Inv d c) (orderly : Orderly c) {b : Bio} (flies : (c.task t).flying = some b) {a : Int}
    (low : b.start ≤ a) (high : a < b.start + b.size) {u : ι} (other : u ≠ t) : ¬ (c.task u).patch.Covers a := by
  intro covered
  obtain ⟨b', flies', write, low', high'⟩ := Pc.patch_covers (inv.sound u) covered
  exact orderly.apart t u b b' other.symm flies flies' ⟨Or.inr write, by omega, by omega⟩

theorem Inv.writeByte (inv : Inv d c) (orderly : Orderly c) {b : Bio} {buf : Int} {done todo : List (List UInt8)}
    {cur seg : List UInt8} {byte : UInt8} (at' : c.task t = .copy b buf done cur seg todo) (write : bioDataDir b = 1)
    (more : seg[cur.length]? = some byte) :
    Inv d ((program d.size).after c t
      { c.shared with data := Function.update c.shared.data (buf + (cur.length : Int)) byte }
      (.copy b buf done (cur ++ [byte]) seg todo) ()) := by
  have sound := inv.sound t
  rw [at'] at sound
  obtain ⟨way, bound, copied⟩ := sound
  obtain ⟨shorter, _⟩ := List.getElem?_eq_some_iff.mp more
  have place := way.buf_eq
  have total := way.total
  rw [List.flatten_cons, List.length_append] at total
  have own : (c.task t).patch = ⟨b.start, done.flatten ++ cur⟩ := by
    rw [at']
    exact if_pos write
  have address : buf + (cur.length : Int) = (c.task t).patch.start + ((c.task t).patch.cells.length : Int) := by
    rw [own, place]
    simp only [List.length_append]
    omega
  refine ⟨inv.answered, ?_, ?_⟩
  · intro u
    by_cases mine : u = t
    · subst u
      rw [after_same]
      refine ⟨⟨way.toPlace, fun read => by omega⟩, ?_, fun _ => ?_⟩
      · rw [List.length_append, List.length_singleton]
        omega
      · rw [List.length_append, List.length_singleton, List.take_add_one, more, ← copied write]
        rfl
    · rw [others_after mine]
      exact inv.sound u
  · rw [after_shared]
    simp only [address]
    refine inv.overlaid.extend ?_ ?_ ?_
    · simp only [after_same, own]
      simp only [Pc.patch, Pc.flying, Pc.moved, if_pos write, List.append_assoc]
    · intro u other
      simp only [others_after other]
    · intro u other
      refine inv.apart orderly (t := t) (b := b) (by rw [at']; rfl) ?_ ?_ other
      · rw [own]
        simp only
        omega
      · rw [own]
        simp only [List.length_append]
        omega

theorem settled_snoc (d : Bdev) (log : List Entry) (e : Entry) :
    settled d (log ++ [e]) = (serveBio d.size (settled d log) e.bio).data := by
  rw [settled, List.map_append, List.map_singleton, Bdev.after_snoc, Bdev.bdevRequest, Bdev.after_size]
  rfl

theorem answered_snoc {log : List Entry} {e : Entry}
    (answered : log.map (fun e => (e.segs, [e.status])) =
      (d.outcomes (log.map Entry.bio)).map fun o => (o.segs, o.endio))
    (segs : (serveBio d.size (settled d log) e.bio).segs = e.segs)
    (status : (serveBio d.size (settled d log) e.bio).endio = [e.status]) :
    (log ++ [e]).map (fun e => (e.segs, [e.status])) =
      (d.outcomes ((log ++ [e]).map Entry.bio)).map fun o => (o.segs, o.endio) := by
  rw [List.map_append, answered, List.map_append, List.map_singleton, List.map_singleton, outcomes_snoc,
    List.map_append, List.map_singleton, Bdev.bdevRequest, Bdev.after_size]
  rw [← segs, ← status]
  rfl

theorem Sound.rebase {base' : Int → UInt8} {x : Pc} (sound : Sound size base x)
    (same : ∀ b, x.flying = some b → bioDataDir b = 0 → ∀ a, b.start ≤ a → a < b.start + b.size → base' a = base a) :
    Sound size base' x := by
  have moved : ∀ {b n}, x.flying = some b → bioDataDir b = 0 → n ≤ b.size →
      fetch base' b.start n = fetch base b.start n := fun flies read bound =>
    fetch_congr fun k inside => same _ flies read _ (by omega) (by omega)
  cases x with
  | head b buf done todo =>
    have way : Way size base b buf done todo [] := sound
    have total := way.total
    refine ⟨way.toPlace, fun read => ?_⟩
    rw [moved rfl read (by rw [List.append_nil]; omega)]
    exact way.read read
  | copy b buf done cur seg todo =>
    obtain ⟨way, bound, copied⟩ := sound
    have total := way.total
    rw [List.flatten_cons, List.length_append] at total
    refine ⟨⟨way.toPlace, fun read => ?_⟩, bound, copied⟩
    rw [moved rfl read (by rw [List.length_append]; omega)]
    exact way.read read
  | fail b segs => exact sound
  | _ => trivial

theorem Inv.endio (inv : Inv d c) (orderly : Orderly c) {b : Bio} {buf : Int} {done : List (List UInt8)}
    (at' : c.task t = .head b buf done []) :
    Inv d ((program d.size).after c t { c.shared with log := c.shared.log ++ [⟨b, done, .ok ()⟩] } .returned ()) := by
  have small : d.size < 2 ^ 64 := Nat.lt_trans d.fits (by decide)
  have sound := inv.sound t
  rw [at'] at sound
  have way : Way d.size (settled d c.shared.log) b buf done [] [] := sound
  obtain ⟨segs, status, data⟩ := way.arrives small
  have base := settled_snoc d c.shared.log ⟨b, done, .ok ()⟩
  have total := way.total
  rw [List.flatten_nil, List.length_nil, Nat.add_zero] at total
  refine ⟨answered_snoc inv.answered segs status, ?_, ?_⟩
  · intro u
    by_cases mine : u = t
    · subst u
      rw [after_same]
      trivial
    · rw [others_after mine, after_shared, base, data]
      refine (inv.sound u).rebase fun b' flies read a low high => ?_
      by_cases write : bioDataDir b = 1
      · have apart := orderly.apart t u b b' (Ne.symm mine) (by rw [at']; rfl) flies
        have disjoint : a < b.start ∨ b.start + (done.flatten.length : Int) ≤ a := by
          by_contra inside
          exact apart ⟨Or.inl write, by omega, by omega⟩
        rw [if_pos write]
        rcases disjoint with below | above
        · exact blit_below below
        · exact blit_above above
      · rw [if_neg write]
  · have retired := inv.overlaid.retire (t := t) (fun u => (((program d.size).after c t
        { c.shared with log := c.shared.log ++ [⟨b, done, .ok ()⟩] } .returned ()).task u).patch)
      (by simp only [after_same]; rfl) fun u other => by simp only [others_after other]
    rw [after_shared, base, data]
    simp only [at', Pc.patch, Pc.flying, Pc.moved] at retired
    by_cases write : bioDataDir b = 1
    · rw [if_pos write] at retired ⊢
      exact retired
    · rw [if_neg write, blit_nil] at retired
      rw [if_neg write]
      exact retired

theorem Inv.ioError (inv : Inv d c) {b : Bio} {segs : List (List UInt8)} (at' : c.task t = .fail b segs) :
    Inv d ((program d.size).after c t { c.shared with log := c.shared.log ++ [⟨b, segs, .error Errno.EIO⟩] }
      .returned ()) := by
  have sound := inv.sound t
  rw [at'] at sound
  obtain ⟨rfl, outside, noWrap⟩ := sound
  have served := serveBio_rejected (settled d c.shared.log) noWrap outside
  have base : settled d (c.shared.log ++ [⟨b, b.segs, .error Errno.EIO⟩]) = settled d c.shared.log := by
    rw [settled_snoc, served]
  refine ⟨answered_snoc inv.answered (by rw [served]) (by rw [served]), ?_, ?_⟩
  · intro u
    rw [after_shared, base]
    by_cases mine : u = t
    · subst u
      rw [after_same]
      trivial
    · rw [others_after mine]
      exact inv.sound u
  · rw [after_shared, base]
    refine inv.overlaid.same fun u => ?_
    by_cases mine : u = t
    · subst u
      rw [after_same, at']
      rfl
    · rw [others_after mine]

omit [DecidableEq ι] in
/-- A byte read is the base's. -/
theorem Inv.readByte (inv : Inv d c) (orderly : Orderly c) {b : Bio} {buf : Int} {done todo : List (List UInt8)}
    {cur seg : List UInt8} (at' : c.task t = .copy b buf done cur seg todo) (read : bioDataDir b = 0)
    (more : cur.length < seg.length) :
    Sound d.size (settled d c.shared.log)
      (.copy b buf done (cur ++ [c.shared.data (buf + (cur.length : Int))]) seg todo) := by
  have sound := inv.sound t
  rw [at'] at sound
  obtain ⟨way, bound, copied⟩ := sound
  have place := way.buf_eq
  have total := way.total
  rw [List.flatten_cons, List.length_append] at total
  have uncovered : ∀ u, ¬ (c.task u).patch.Covers (buf + (cur.length : Int)) := by
    intro u
    by_cases mine : u = t
    · subst u
      intro covered
      obtain ⟨b', flies, write, _⟩ := Pc.patch_covers (inv.sound t) covered
      rw [at'] at flies
      cases flies
      omega
    · exact inv.apart orderly (t := t) (b := b) (by rw [at']; rfl) (by omega) (by omega) mine
  have byte := inv.overlaid.outside _ uncovered
  refine ⟨⟨way.toPlace, fun _ => ?_⟩, ?_, fun write => by omega⟩
  · have got := way.read read
    have address : buf + (cur.length : Int) = b.start + ((done.flatten ++ cur).length : Int) := by
      rw [place, List.length_append]
      omega
    rw [← List.append_assoc, List.length_append, List.length_singleton, fetch_add, ← got, byte, address]
    simp [fetch]
  · rw [List.length_append, List.length_singleton]
    omega

theorem Inv.step (inv : Inv d c) (orderly : Orderly c) (stepped : PcStep d.size c.shared (c.task t) s' x' ()) :
    Inv d ((program d.size).after c t s' x' ()) := by
  have sound := inv.sound t
  generalize at' : c.task t = x at stepped sound
  cases stepped with
  | submit b => exact inv.keep trivial (Or.inr ⟨rfl, by rw [at']; rfl⟩)
  | reject b outside =>
    have noWrap := orderly.noWrap t b at'
    have unfit : ¬ b.Fits d.size := fun fits => absurd outside ((fits_iff noWrap).mpr fits)
    exact inv.keep ⟨rfl, unfit, noWrap⟩ (Or.inr ⟨rfl, by rw [at']; rfl⟩)
  | accept b inside =>
    have noWrap := orderly.noWrap t b at'
    have fits := (fits_iff noWrap).mp inside
    rw [Bio.start_mod noWrap]
    refine inv.keep ⟨Place.begin fits, fun _ => rfl⟩ (Or.inr ⟨?_, by rw [at']; rfl⟩)
    simp only [Pc.patch, Pc.flying, Pc.moved, List.flatten_nil]
    split <;> rfl
  | segment b buf done seg todo =>
    refine inv.keep ⟨sound, Nat.zero_le _, fun _ => rfl⟩ (Or.inl ?_)
    rw [at']
    simp only [Pc.patch, Pc.flying, Pc.moved, List.append_nil]
  | readByte b buf done cur seg todo dir more =>
    have read : bioDataDir b = 0 := by
      rcases bioDataDir_cases b with read | write
      · exact read
      · omega
    refine inv.keep (inv.readByte orderly at' read more) (Or.inl ?_)
    have silent : bioDataDir b ≠ 1 := by omega
    rw [at']
    simp only [Pc.patch, Pc.flying, if_neg silent]
  | writeByte b buf done cur seg todo byte dir more => exact inv.writeByte orderly at' dir more
  | unknown b buf done cur seg todo read write =>
    rcases bioDataDir_cases b with reads | writes
    · exact absurd (Or.inr reads) read
    · exact absurd writes write
  | next b buf done cur seg todo whole =>
    obtain ⟨way, bound, copied⟩ := sound
    refine inv.keep ⟨way.next whole copied, ?_⟩ (Or.inl ?_)
    · intro read
      have got := way.read read
      simpa using got
    · rw [at']
      simp only [Pc.patch, Pc.flying, Pc.moved, List.flatten_append, List.flatten_singleton]
  | endio b buf done => exact inv.endio orderly at'
  | ioError b segs => exact inv.ioError at'
  | back => exact inv.keep trivial (Or.inr ⟨rfl, by rw [at']; rfl⟩)

/-- Without a lock the bios are linearised by their `bio_endio`, if the submitters keep conflicting
bios apart: every finished bio has got what it gets when the bios run one after the other in this
order, and when no bio is in flight the disk is what they leave. -/
theorem bios_linearised (d : Bdev) (keeping : (program d.size).Keeping Orderly (loaded ι d) c) :
    c.shared.log.map (fun e => (e.segs, [e.status])) =
      (d.outcomes (c.shared.log.map Entry.bio)).map (fun o => (o.segs, o.endio)) ∧
    ((∀ t, (c.task t).flying = none) → c.shared.data = (d.after (c.shared.log.map Entry.bio)).data) := by
  have inv : Inv d c := by
    refine keeping.invariant (I := Inv d) ?_ ?_
    · exact ⟨rfl, fun _ => trivial, overlaid_empty _ fun _ => rfl⟩
    · intro c t s' x' n orderly _ inv stepped
      exact inv.step orderly stepped
  refine ⟨inv.answered, fun landed => ?_⟩
  funext a
  refine inv.overlaid.outside a fun t covered => ?_
  obtain ⟨b, flies, _⟩ := Pc.patch_covers (inv.sound t) covered
  rw [landed t] at flies
  cases flies

/-! ### A run -/

def Pc.subject : Pc → Option Bio
  | .check b | .head b _ _ _ | .copy b _ _ _ _ _ | .fail b _ => some b
  | _ => none

/-- Bios that may be in flight together in any way. -/
structure Compatible (bios : ι → Bio) : Prop where
  noWrap : ∀ t, (bios t).sector * 512 + (bios t).size < 2 ^ 64
  apart : ∀ t u, t ≠ u → ¬ Conflict (bios t) (bios u)

/-- A run in which task `t` submits no other bio than `bios t`. -/
structure Run (d : Bdev) (bios : ι → Bio) (c : Config Shared Pc ι) : Prop where
  keeping : (program d.size).Keeping Orderly (loaded ι d) c
  own : ∀ t b, (c.task t).subject = some b → b = bios t

variable {bios : ι → Bio}

omit [DecidableEq ι] in
theorem Compatible.orderly (compatible : Compatible bios) (own : ∀ t b, (c.task t).subject = some b → b = bios t) :
    Orderly c := by
  have flies : ∀ t b, (c.task t).flying = some b → b = bios t := by
    intro t b flying
    apply own t b
    generalize c.task t = x at flying
    cases x <;> first | exact flying | cases flying
  refine ⟨?_, ?_⟩
  · intro t b checks
    rw [own t b (by rw [checks]; rfl)]
    exact compatible.noWrap t
  · intro t u b b' different first second
    rw [flies t b first, flies u b' second]
    exact compatible.apart t u different

theorem Compatible.start (compatible : Compatible bios) (d : Bdev) : Run d bios (loaded ι d) := by
  have own : ∀ t b, ((loaded ι d).task t).subject = some b → b = bios t := by
    intro t b none
    cases none
  exact ⟨.init (compatible.orderly own), own⟩

theorem Run.step (run : Run d bios c) (compatible : Compatible bios) (t : ι)
    (stepped : PcStep d.size c.shared (c.task t) s' x' ()) (mine : x'.subject = some (bios t) ∨ x'.subject = none) :
    Run d bios ((program d.size).after c t s' x' ()) := by
  have own : ∀ u b, (((program d.size).after c t s' x' ()).task u).subject = some b → b = bios u := by
    intro u b subject
    by_cases same : u = t
    · subst u
      rw [after_same] at subject
      rcases mine with mine | none
      · rw [mine] at subject
        exact (Option.some.inj subject).symm
      · rw [none] at subject
        cases subject
    · rw [others_after same] at subject
      exact run.own u b subject
  exact ⟨run.keeping.step t stepped (compatible.orderly own), own⟩

def writeOne : Bio := ⟨1, 1, 1, [[5]], by decide⟩

def readOne : Bio := ⟨0, 1, 0, [[0]], by decide⟩

/-- A read of the first sector is in flight while a write to the second one begins and ends. -/
theorem bios_linearised_overlapping :
    ∃ c : Config Shared Pc (Fin 2), (program twoSectors.size).Keeping Orderly (loaded (Fin 2) twoSectors) c ∧
      c.shared.log.map Entry.bio = [writeOne] ∧ (c.task 1).flying = some readOne ∧
      c.shared.log.map (fun e => (e.segs, [e.status])) =
        (twoSectors.outcomes [writeOne]).map (fun o => (o.segs, o.endio)) := by
  let bios : Fin 2 → Bio := fun t => if t = 0 then writeOne else readOne
  have fine : Compatible bios := ⟨by decide, by unfold Conflict; decide⟩
  have run := fine.start twoSectors |>.step fine 1 (.submit _ readOne) (Or.inl rfl)
    |>.step fine 1 (.accept _ readOne (by decide)) (Or.inl rfl)
    |>.step fine 0 (.submit _ writeOne) (Or.inl rfl)
    |>.step fine 0 (.accept _ writeOne (by decide)) (Or.inl rfl)
    |>.step fine 0 (.segment _ _ _ _ _ _) (Or.inl rfl)
    |>.step fine 0 (.writeByte _ _ _ _ _ _ _ 5 rfl rfl) (Or.inl rfl)
    |>.step fine 0 (.next _ _ _ _ _ _ _ rfl) (Or.inl rfl)
    |>.step fine 0 (.endio _ _ _ _) (Or.inr rfl)
  exact ⟨_, run.keeping, rfl, rfl, (bios_linearised twoSectors run.keeping).1⟩

end Ldd3.Block.Tasks
