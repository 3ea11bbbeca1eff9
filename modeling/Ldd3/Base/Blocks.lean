import Mathlib.Order.Interval.Finset.Nat

/-!
Byte ranges over blocks of `q` bytes. A transfer that ends with its block moves `piece q off len` of
the `len` bytes it is asked for at `off`. Repeated at the next offset it moves all of them, in as
many steps as the range has blocks. `Puts` is what such a run of transfers does to a memory that has
no cell at some addresses.
-/

namespace Base.Blocks

variable {q off len i : Nat}

def piece (q off len : Nat) : Nat := min len (q - off % q)

/-- The number of blocks that the range touches. -/
def touched (q off len : Nat) : Nat := ((Finset.Ico off (off + len)).image (· / q)).card

theorem piece_le (q off len : Nat) : piece q off len ≤ len := Nat.min_le_left _ _

theorem piece_pos (positive : 0 < q) (off : Nat) (asked : 0 < len) : 0 < piece q off len := by
  have inside := Nat.mod_lt off positive
  unfold piece
  omega

theorem mod_add_piece_le (positive : 0 < q) (off len : Nat) : off % q + piece q off len ≤ q := by
  have inside := Nat.mod_lt off positive
  unfold piece
  omega

theorem mod_piece (positive : 0 < q) (inside : i < piece q off len) : (off + i) % q = off % q + i := by
  have bound := mod_add_piece_le positive off len
  rw [Nat.add_mod, Nat.mod_eq_of_lt (a := i) (by omega), Nat.mod_eq_of_lt (by omega)]

theorem div_piece (positive : 0 < q) (inside : i < piece q off len) : (off + i) / q = off / q := by
  have bound := mod_add_piece_le positive off len
  have none : (off % q + i) / q = 0 := Nat.div_eq_of_lt (by omega)
  calc (off + i) / q = (q * (off / q) + (off % q + i)) / q := by rw [← Nat.add_assoc, Nat.div_add_mod]
    _ = off / q := by rw [Nat.mul_add_div positive, none, Nat.add_zero]

/-- What a piece leaves is in later blocks. -/
theorem div_after_piece (positive : 0 < q) (after : off + piece q off len ≤ i) (before : i < off + len) :
    off / q < i / q := by
  have split := Nat.div_add_mod off q
  have whole : piece q off len = q - off % q := by
    unfold piece at after ⊢
    omega
  have inside := Nat.mod_lt off positive
  have next : (off / q + 1) * q ≤ i := by
    rw [Nat.add_mul, Nat.one_mul, Nat.mul_comm]
    omega
  exact (Nat.le_div_iff_mul_le positive).mpr next

@[simp] theorem touched_zero (q off : Nat) : touched q off 0 = 0 := by
  simp [touched]

theorem touched_step (positive : 0 < q) (off : Nat) (asked : 0 < len) :
    touched q off len = touched q (off + piece q off len) (len - piece q off len) + 1 := by
  have small := piece_le q off len
  have nonempty := piece_pos positive off asked
  have rest : off + piece q off len + (len - piece q off len) = off + len := by omega
  have split : (Finset.Ico off (off + len)).image (· / q) =
      insert (off / q) ((Finset.Ico (off + piece q off len) (off + len)).image (· / q)) := by
    ext b
    simp only [Finset.mem_image, Finset.mem_Ico, Finset.mem_insert]
    constructor
    · rintro ⟨k, ⟨low, high⟩, rfl⟩
      by_cases here : k < off + piece q off len
      · obtain ⟨i, rfl⟩ := Nat.exists_eq_add_of_le low
        exact Or.inl (div_piece positive (Nat.add_lt_add_iff_left.mp here))
      · exact Or.inr ⟨k, ⟨by omega, high⟩, rfl⟩
    · rintro (rfl | ⟨k, ⟨low, high⟩, rfl⟩)
      · exact ⟨off, ⟨Nat.le_refl _, by omega⟩, rfl⟩
      · exact ⟨k, ⟨by omega, high⟩, rfl⟩
  have fresh : off / q ∉ (Finset.Ico (off + piece q off len) (off + len)).image (· / q) := by
    simp only [Finset.mem_image, Finset.mem_Ico, not_exists, not_and]
    rintro k ⟨low, high⟩ same
    exact absurd same (Nat.ne_of_gt (div_after_piece positive low high))
  rw [touched, touched, split, Finset.card_insert_of_notMem fresh, rest]

theorem eq_zero_of_touched (positive : 0 < q) (none : touched q off len = 0) : len = 0 := by
  by_contra asked
  have step := touched_step positive off (Nat.pos_of_ne_zero asked)
  omega

/-! ### Sparse memories -/

variable {α : Type*}

/-- In `after`, the cells from `off` on are `xs`, and every other cell of `before` is as it was; cells
that were not there may be. -/
structure Puts (before after : Nat → Option α) (off : Nat) (xs : List α) : Prop where
  inside : ∀ i (bound : i < xs.length), after (off + i) = some xs[i]
  outside : ∀ k x, k < off ∨ off + xs.length ≤ k → before k = some x → after k = some x

variable {before middle after : Nat → Option α} {xs ys : List α}

theorem puts_nil (before : Nat → Option α) (off : Nat) : Puts before before off [] :=
  ⟨fun i bound => absurd bound (Nat.not_lt_zero i), fun _ _ _ same => same⟩

theorem Puts.append (first : Puts before middle off xs) (second : Puts middle after (off + xs.length) ys) :
    Puts before after off (xs ++ ys) := by
  constructor
  · intro i bound
    by_cases early : i < xs.length
    · rw [List.getElem_append_left early]
      exact second.outside _ _ (Or.inl (by omega)) (first.inside i early)
    · rw [List.length_append] at bound
      have later := second.inside (i - xs.length) (by omega)
      rw [show off + xs.length + (i - xs.length) = off + i by omega] at later
      rw [later, List.getElem_append_right (by omega)]
  · intro k x away found
    rw [List.length_append] at away
    exact second.outside k x (by omega) (first.outside k x (by omega) found)

end Base.Blocks
