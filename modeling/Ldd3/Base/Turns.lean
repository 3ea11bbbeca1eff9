import Ldd3.Base.Ring
import Mathlib.Algebra.Ring.Nat

/-!
A ring seen from outside. A `Tape` is everything that was ever put into the ring and the number of
the next item to take, so that item `i` lies in cell `i % size` while it is among the last `size`
items. The two positions of the ring are the residues of the two numbers.

A put that leaves no cell free makes the write position meet or pass the read position. Nobody can
tell that ring from one whose reader has skipped a whole turn, and so the tape says that it has.
-/

namespace Base.Turns

open Base.Cells Base.Ring
open scoped List

structure Tape (α : Type*) where
  items : List α
  next : Nat

variable {α : Type*}

def Tape.unread (s : Tape α) : List α := s.items.drop s.next

/-- How many of the unread items lie in one piece from the read position on. -/
def Tape.run (s : Tape α) (size : Nat) : Nat := min s.unread.length (size - s.next % size)

def Tape.take (s : Tape α) (c : Nat) : Tape α := { s with next := s.next + c }

def Tape.put (s : Tape α) (size : Nat) (xs : List α) : Tape α :=
  ⟨s.items ++ xs, if s.unread.length + xs.length < size then s.next else s.next + size⟩

/-- The ring of `size` cells from `buf` on holds the end of the tape. -/
structure Shows (m : Int → α) (buf : Int) (size : Nat) (r w : Int) (s : Tape α) : Prop where
  next_le : s.next ≤ s.items.length
  short : s.items.length < s.next + size
  read : r = buf + (s.next % size : Nat)
  write : w = buf + (s.items.length % size : Nat)
  cells : ∀ i (inside : i < s.items.length), s.items.length ≤ i + size →
    m (buf + (i % size : Nat)) = s.items[i]

variable {m : Int → α} {buf r w : Int} {size c : Nat} {s : Tape α} {xs : List α}

@[simp] theorem length_unread (s : Tape α) : s.unread.length = s.items.length - s.next :=
  List.length_drop

theorem shows_empty (m : Int → α) (buf : Int) (positive : 0 < size) :
    Shows m buf size buf buf ⟨[], 0⟩ := by
  refine ⟨Nat.le_refl _, by simpa using positive, by simp, by simp, ?_⟩
  intro i inside
  exact absurd inside (Nat.not_lt_zero i)

theorem advance_residue {n : Nat} (bound : n % size + c ≤ size) :
    advance buf (buf + size) (buf + (n % size : Nat)) c = buf + ((n + c) % size : Nat) := by
  rw [← Nat.mod_add_mod n size c]
  by_cases wraps : n % size + c = size
  · rw [advance_wraps (by omega), wraps, Nat.mod_self]
    simp
  · rw [advance_stays (by omega), Nat.mod_eq_of_lt (show n % size + c < size by omega)]
    omega

theorem Shows.positive (shown : Shows m buf size r w s) : 0 < size := by
  have bound := shown.short
  have low := shown.next_le
  omega

/-- Neighbouring items lie in neighbouring cells up to the end of the ring. -/
theorem Shows.fetch_items (shown : Shows m buf size r w s) {i : Nat} (recent : s.items.length ≤ i + size)
    (inside : i + c ≤ s.items.length) (piece : i % size + c ≤ size) :
    fetch m (buf + (i % size : Nat)) c = (s.items.drop i).take c := by
  apply List.ext_getElem
  · rw [length_fetch, List.length_take, List.length_drop]
    omega
  intro k bound _
  have short : k < c := by simpa using bound
  have cell : (i + k) % size = i % size + k := by
    rw [← Nat.mod_add_mod, Nat.mod_eq_of_lt (show i % size + k < size by omega)]
  have stored := shown.cells (i + k) (by omega) (by omega)
  rw [cell] at stored
  rw [getElem_fetch, List.getElem_take, List.getElem_drop, ← stored, Int.natCast_add, Int.add_assoc]

/-! ### Where the positions are -/

theorem Shows.write_residue (shown : Shows m buf size r w s) :
    s.items.length % size = (s.next % size + s.unread.length) % size := by
  have low := shown.next_le
  rw [Nat.mod_add_mod, length_unread, Nat.add_sub_cancel' low]

theorem Shows.ahead (shown : Shows m buf size r w s) (front : s.next % size + s.unread.length < size) :
    w = r + s.unread.length := by
  have residue := shown.write_residue
  rw [Nat.mod_eq_of_lt front] at residue
  rw [shown.read, shown.write, residue]
  omega

theorem Shows.behind (shown : Shows m buf size r w s) (back : size ≤ s.next % size + s.unread.length) :
    w + size = r + s.unread.length := by
  have positive := shown.positive
  have low := Nat.mod_lt s.next positive
  have short := shown.short
  have length := length_unread s
  have residue := shown.write_residue
  rw [Nat.mod_eq_sub_mod back,
    Nat.mod_eq_of_lt (show s.next % size + s.unread.length - size < size by omega)] at residue
  rw [shown.read, shown.write, residue]
  omega

theorem Shows.ahead_iff (shown : Shows m buf size r w s) :
    r ≤ w ↔ s.next % size + s.unread.length < size := by
  have short := shown.short
  have length := length_unread s
  have low := shown.next_le
  constructor
  · intro ahead
    by_contra back
    have position := shown.behind (Nat.not_lt.mp back)
    omega
  · intro front
    have position := shown.ahead front
    omega

theorem Shows.empty_iff (shown : Shows m buf size r w s) : r = w ↔ s.unread = [] := by
  have short := shown.short
  have length := length_unread s
  rw [← List.length_eq_zero_iff]
  constructor
  · intro same
    have position := shown.ahead (shown.ahead_iff.mp (Int.le_of_eq same))
    omega
  · intro none
    have low := Nat.mod_lt s.next shown.positive
    have position := shown.ahead (by omega)
    omega

theorem Shows.held (shown : Shows m buf size r w s) : held m buf (buf + size) r w = s.unread := by
  have low := shown.next_le
  have short := shown.short
  have length := length_unread s
  by_cases front : s.next % size + s.unread.length < size
  · have position := shown.ahead front
    have piece := shown.fetch_items (i := s.next) (c := s.unread.length) (by omega) (by omega) (by omega)
    rw [held_ahead (by omega), show (w - r).toNat = s.unread.length by omega, shown.read, piece]
    exact List.take_length
  · have back : size ≤ s.next % size + s.unread.length := by omega
    have position := shown.behind back
    have residue := Nat.mod_lt s.next shown.positive
    have wrapped : (s.next + (size - s.next % size)) % size = 0 := by
      rw [← Nat.mod_add_mod, Nat.add_sub_cancel' residue.le, Nat.mod_self]
    have upper := shown.fetch_items (i := s.next) (c := size - s.next % size) (by omega) (by omega) (by omega)
    have lower := shown.fetch_items (i := s.next + (size - s.next % size))
      (c := s.unread.length - (size - s.next % size)) (by omega) (by omega) (by omega)
    rw [wrapped] at lower
    have firsts : (buf + size - r).toNat = size - s.next % size := by
      rw [shown.read]
      omega
    have lasts : (w - buf).toNat = s.unread.length - (size - s.next % size) := by
      have read := shown.read
      omega
    rw [held_behind (by omega), firsts, lasts, shown.read, upper]
    rw [Int.natCast_zero, Int.add_zero] at lower
    rw [lower, ← List.drop_drop]
    change _ ++ List.take _ (List.drop _ s.unread) = s.unread
    rw [List.take_of_length_le (l := s.unread.drop _) (by simp)]
    exact List.take_append_drop _ _

/-! ### The two operations -/

theorem Shows.fetch_front (shown : Shows m buf size r w s) (bound : c ≤ s.run size) :
    fetch m r c = s.unread.take c := by
  have low := shown.next_le
  have short := shown.short
  have residue := Nat.mod_lt s.next shown.positive
  have length := length_unread s
  unfold Tape.run at bound
  rw [shown.read]
  exact shown.fetch_items (by omega) (by omega) (by omega)

theorem Shows.take (shown : Shows m buf size r w s) (bound : c ≤ s.run size) :
    Shows m buf size (advance buf (buf + size) r c) w (s.take c) := by
  have low := shown.next_le
  have short := shown.short
  have residue := Nat.mod_lt s.next shown.positive
  have length := length_unread s
  unfold Tape.run at bound
  refine ⟨?_, ?_, ?_, shown.write, shown.cells⟩
  · simp only [Tape.take]
    omega
  · simp only [Tape.take]
    omega
  · rw [shown.read]
    exact advance_residue (by omega)

/-- The cells of the last items are not the cells that a put of `c` items goes to. -/
theorem cell_kept {n i : Nat} (old : i < n) (recent : n + c ≤ i + size) (piece : n % size + c ≤ size) :
    i % size < n % size ∨ n % size + c ≤ i % size := by
  by_contra between
  have cell : (n + (i % size - n % size)) % size = i % size := by
    rw [← Nat.mod_add_mod, Nat.mod_eq_of_lt (show n % size + (i % size - n % size) < size by omega)]
    omega
  have apart := Nat.sub_mod_eq_zero_of_mod_eq cell
  have whole := Nat.le_of_dvd (by omega) (Nat.dvd_of_mod_eq_zero apart)
  omega

theorem Shows.put (xs : List α) (shown : Shows m buf size r w s)
    (piece : s.items.length % size + xs.length ≤ size) :
    Shows (blit m w xs) buf size r (advance buf (buf + size) w xs.length) (s.put size xs) := by
  have low := shown.next_le
  have short := shown.short
  have length := length_unread s
  have items : (s.put size xs).items.length = s.items.length + xs.length := List.length_append
  refine ⟨?_, ?_, ?_, ?_, ?_⟩
  · rw [items]
    simp only [Tape.put]
    split <;> omega
  · rw [items]
    simp only [Tape.put]
    split <;> omega
  · rw [shown.read]
    simp only [Tape.put]
    split
    · rfl
    · rw [Nat.add_mod_right]
  · rw [items, shown.write]
    exact advance_residue piece
  · intro i inside recent
    rw [items] at inside recent
    simp only [Tape.put]
    by_cases old : i < s.items.length
    · have stored := shown.cells i old (by omega)
      rw [List.getElem_append_left old, ← stored, shown.write]
      rcases cell_kept old recent piece with below | above
      · exact blit_below (by omega)
      · exact blit_above (by omega)
    · have cell : i % size = s.items.length % size + (i - s.items.length) := by
        rw [← Nat.mod_eq_of_lt (show s.items.length % size + (i - s.items.length) < size by omega),
          Nat.mod_add_mod, Nat.add_sub_cancel' (by omega)]
      rw [List.getElem_append_right (by omega), shown.write, cell, Int.natCast_add, ← Int.add_assoc]
      exact blit_inside (by omega)

/-! ### Calls -/

structure Reply (α : Type*) where
  ret : Nat
  delivered : List α
  tape : Tape α

/-- A read takes items of one piece and delivers them without the last `fault`. -/
def Tape.read (s : Tape α) (size len fault : Nat) : Option (Reply α) :=
  if s.unread = [] then none
  else
    let count := min len (s.run size)
    some ⟨count, s.unread.take (count - min fault count), s.take count⟩

/-- What a copy of `count` items leaves that misses `fault` of them. -/
def copied (blank : α) (data : List α) (count fault : Nat) : List α :=
  data.take (count - min fault count) ++ List.replicate (min fault count) blank

theorem length_copied (blank : α) {data : List α} {count : Nat} (bound : count ≤ data.length) (fault : Nat) :
    (copied blank data count fault).length = count := by
  simp only [copied, List.length_append, List.length_take, List.length_replicate]
  omega

/-! ### What reaches the readers -/

/-- What a call did. -/
structure Move (α : Type*) where
  delivered : List α
  removed : Nat
  stored : List α

inductive Moved (size : Nat) : List (Move α) → Tape α → Prop where
  | start : Moved size [] ⟨[], 0⟩
  | take {moves s c} (given : List α) : Moved size moves s → given <+ s.unread.take c →
      Moved size (moves ++ [⟨given, c, []⟩]) (s.take c)
  | put {moves s} (xs : List α) : Moved size moves s → Moved size (moves ++ [⟨[], 0, xs⟩]) (s.put size xs)
  | look {moves s} : Moved size moves s → Moved size (moves ++ [⟨[], 0, []⟩]) s

variable {moves : List (Move α)}

theorem Moved.read {len fault : Nat} {reply : Reply α} (moved : Moved size moves s)
    (answered : s.read size len fault = some reply) :
    Moved size (moves ++ [⟨reply.delivered, reply.ret, []⟩]) reply.tape := by
  unfold Tape.read at answered
  split at answered
  · cases answered
  · cases answered
    exact moved.take _ (List.take_prefix_take_left (Nat.sub_le _ _)).sublist

theorem Moved.items (moved : Moved size moves s) : s.items = moves.flatMap Move.stored := by
  induction moved with
  | start => rfl
  | take given _ _ ih => simpa [Tape.take] using ih
  | put xs _ ih => simp [Tape.put, ih]
  | look _ ih => simpa using ih

theorem put_next_le (s : Tape α) (size : Nat) (xs : List α) : s.next ≤ (s.put size xs).next := by
  simp only [Tape.put]
  split <;> omega

theorem Moved.sublist (moved : Moved size moves s) : moves.flatMap Move.delivered <+ s.items.take s.next := by
  induction moved with
  | start => exact List.Sublist.refl _
  | take given _ part ih =>
    simp only [List.flatMap_append, List.flatMap_cons, List.flatMap_nil, List.append_nil, Tape.take, List.take_add]
    exact ih.append part
  | @put moves s xs _ ih =>
    simp only [List.flatMap_append, List.flatMap_cons, List.flatMap_nil, List.append_nil]
    calc moves.flatMap Move.delivered <+ s.items.take s.next := ih
      _ <+ (s.items ++ xs).take s.next := by
        rw [List.take_append]
        exact List.sublist_append_left _ _
      _ <+ (s.items ++ xs).take (s.put size xs).next := (List.take_prefix_take_left (put_next_le s size xs)).sublist
  | look _ ih => simpa using ih

theorem Moved.turns (moved : Moved size moves s) :
    ∃ turns, s.next = (moves.map Move.removed).sum + turns * size := by
  induction moved with
  | start => exact ⟨0, by simp⟩
  | @take moves s c given _ _ ih =>
    obtain ⟨turns, place⟩ := ih
    refine ⟨turns, ?_⟩
    simp [Tape.take, place]
    omega
  | @put moves s xs _ ih =>
    obtain ⟨turns, place⟩ := ih
    have removed : ((moves ++ [(⟨[], 0, xs⟩ : Move α)]).map Move.removed).sum = (moves.map Move.removed).sum := by
      simp
    rw [removed]
    by_cases fits : s.unread.length + xs.length < size
    · exact ⟨turns, by simp only [Tape.put, if_pos fits, place]⟩
    · refine ⟨turns + 1, ?_⟩
      simp only [Tape.put, if_neg fits, place, Nat.succ_mul, Nat.add_assoc]
  | look _ ih => simpa using ih

/-- What was delivered and then what is unread are stored items in the order in which they were
stored, and the missing ones are whole turns. -/
theorem Moved.whole (moved : Moved size moves s) (low : s.next ≤ s.items.length) :
    moves.flatMap Move.delivered ++ s.unread <+ moves.flatMap Move.stored ∧
      ∃ turns, (moves.flatMap Move.stored).length =
        (moves.map Move.removed).sum + s.unread.length + turns * size := by
  obtain ⟨turns, place⟩ := moved.turns
  have length := length_unread s
  rw [← moved.items]
  constructor
  · calc moves.flatMap Move.delivered ++ s.unread <+ s.items.take s.next ++ s.unread := moved.sublist.append_right _
      _ = s.items := List.take_append_drop _ _
  · exact ⟨turns, by omega⟩

end Base.Turns
