import Ldd3.Base.Cells

/-!
A ring in an addressed memory: the cells from `buf` up to `top`, with a position to read at and one
to write at. `held` is the cyclic range from the first to the second, so that equal positions mean
an empty ring and at most `top - buf - 1` cells are ever held. Both positions move by `advance`,
which goes back to `buf` exactly when it comes to `top`.
-/

namespace Base.Ring

open Base.Cells

variable {α : Type*}

def advance (buf top p : Int) (c : Nat) : Int := if p + c = top then buf else p + c

def held (m : Int → α) (buf top r w : Int) : List α :=
  if r ≤ w then fetch m r (w - r).toNat else fetch m r (top - r).toNat ++ fetch m buf (w - buf).toNat

variable {buf top p r w : Int} {c : Nat} {m : Int → α}

theorem advance_wraps (wraps : p + c = top) : advance buf top p c = buf := if_pos wraps

theorem advance_stays (stays : p + c ≠ top) : advance buf top p c = p + c := if_neg stays

theorem advance_range (low : buf ≤ p) (high : p < top) (bound : p + c ≤ top) :
    buf ≤ advance buf top p c ∧ advance buf top p c < top := by
  by_cases wraps : p + (c : Int) = top
  · rw [advance_wraps wraps]; omega
  · rw [advance_stays wraps]; omega

theorem held_ahead (ahead : r ≤ w) : held m buf top r w = fetch m r (w - r).toNat := if_pos ahead

theorem held_behind (behind : w < r) :
    held m buf top r w = fetch m r (top - r).toNat ++ fetch m buf (w - buf).toNat :=
  if_neg (Int.not_le.mpr behind)

@[simp] theorem held_self (m : Int → α) (buf top p : Int) : held m buf top p p = [] := by
  simp [held]

theorem length_held_ahead (ahead : r ≤ w) : ((held m buf top r w).length : Int) = w - r := by
  rw [held_ahead ahead, length_fetch]
  omega

theorem length_held_behind (behind : w < r) (high : r ≤ top) (low : buf ≤ w) :
    ((held m buf top r w).length : Int) = top - r + (w - buf) := by
  rw [held_behind behind, List.length_append, length_fetch, length_fetch]
  omega

/-- Cells taken at the read position are the first held ones. -/
theorem held_take (wLow : buf ≤ w) (wHigh : w < top)
    (run : r + c ≤ if r ≤ w then w else top) :
    held m buf top r w = fetch m r c ++ held m buf top (advance buf top r c) w := by
  by_cases ahead : r ≤ w
  · rw [if_pos ahead] at run
    have split : (w - r).toNat = c + (w - (r + c)).toNat := by omega
    rw [advance_stays (by omega), held_ahead ahead, held_ahead run, split, fetch_add]
  · rw [if_neg ahead] at run
    rw [held_behind (by omega)]
    by_cases wraps : r + (c : Int) = top
    · -- the upper piece is used up and the lower one is what is left
      rw [advance_wraps wraps, held_ahead wLow, show (top - r).toNat = c by omega]
    · have split : (top - r).toNat = c + (top - (r + c)).toNat := by omega
      rw [advance_stays wraps, held_behind (by omega), split, fetch_add, List.append_assoc]

theorem fetch_blit_to (below : p ≤ w) (xs : List α) :
    fetch (blit m w xs) p (w + xs.length - p).toNat = fetch m p (w - p).toNat ++ xs := by
  have start : w = p + ((w - p).toNat : Int) := by omega
  have size : (w + xs.length - p).toNat = (w - p).toNat + xs.length := by omega
  rw [size]
  generalize (w - p).toNat = n at start ⊢
  rw [start]
  exact fetch_blit_extend m p n xs

/-- Cells put at the write position come after the held ones, if one cell of the ring stays
free. -/
theorem held_put {xs : List α} (rLow : buf ≤ r) (rHigh : r < top) (wLow : buf ≤ w)
    (room : (held m buf top r w).length + xs.length < top - buf) :
    held (blit m w xs) buf top r (advance buf top w xs.length) = held m buf top r w ++ xs := by
  by_cases ahead : r ≤ w
  · rw [length_held_ahead ahead] at room
    rw [held_ahead ahead]
    by_cases wraps : w + (xs.length : Int) = top
    · -- the lower piece is empty, but not the whole ring since `r` is past `buf`
      rw [advance_wraps wraps, held_behind (by omega), ← wraps, fetch_blit_to ahead]
      simp
    · rw [advance_stays wraps, held_ahead (by omega), fetch_blit_to ahead]
  · rw [length_held_behind (by omega) (by omega) wLow] at room
    have upper : fetch (blit m w xs) r (top - r).toNat = fetch m r (top - r).toNat :=
      fetch_blit_above (by omega)
    rw [advance_stays (by omega), held_behind (by omega), held_behind (by omega), upper,
      fetch_blit_to wLow, List.append_assoc]

/-- Otherwise a whole turn of the ring is lost, whatever the cells then are. -/
theorem length_held_overrun (m' : Int → α) (rLow : buf ≤ r) (rHigh : r < top) (wLow : buf ≤ w)
    (bound : w + c ≤ top) (full : top - buf ≤ (held m buf top r w).length + c) :
    ((held m' buf top r (advance buf top w c)).length : Int) + (top - buf) =
      (held m buf top r w).length + c := by
  by_cases ahead : r ≤ w
  · rw [length_held_ahead ahead] at full ⊢
    rw [advance_wraps (by omega), length_held_ahead (by omega)]
    omega
  · rw [length_held_behind (by omega) (by omega) wLow] at full ⊢
    by_cases wraps : w + (c : Int) = top
    · rw [advance_wraps wraps, length_held_behind (by omega) (by omega) (by omega)]
      omega
    · rw [advance_stays wraps, length_held_ahead (by omega)]
      omega

end Base.Ring
