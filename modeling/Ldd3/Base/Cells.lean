import Mathlib.Data.List.Basic
import Mathlib.Data.List.Range

/-!
Runs of cells in an addressed memory. A memory is a function from integer addresses, `fetch m p n`
copies the `n` cells from `p` on out of it and `blit m p xs` overwrites the cells from `p` on with
`xs`. Every copy a driver makes between a buffer and a caller is one of the two.
-/

namespace Base.Cells

variable {α : Type*}

def fetch (m : Int → α) (p : Int) (n : Nat) : List α :=
  (List.range n).map fun k : Nat => m (p + (k : Int))

def blit (m : Int → α) (p : Int) (xs : List α) : Int → α := fun a =>
  if p ≤ a then (xs[(a - p).toNat]?).getD (m a) else m a

@[simp] theorem length_fetch (m : Int → α) (p : Int) (n : Nat) : (fetch m p n).length = n := by
  simp [fetch]

@[simp] theorem fetch_zero (m : Int → α) (p : Int) : fetch m p 0 = [] := rfl

theorem getElem_fetch (m : Int → α) (p : Int) {n k : Nat} (bound : k < (fetch m p n).length) :
    (fetch m p n)[k] = m (p + (k : Int)) := by
  simp [fetch]

theorem getElem?_fetch (m : Int → α) (p : Int) {n k : Nat} (bound : k < n) :
    (fetch m p n)[k]? = some (m (p + (k : Int))) := by
  rw [List.getElem?_eq_getElem (by simpa using bound), getElem_fetch]

theorem fetch_congr {m m' : Int → α} {p : Int} {n : Nat}
    (same : ∀ k : Nat, k < n → m (p + (k : Int)) = m' (p + (k : Int))) :
    fetch m p n = fetch m' p n :=
  List.map_congr_left fun k member => same k (List.mem_range.mp member)

theorem fetch_add (m : Int → α) (p : Int) (a b : Nat) :
    fetch m p (a + b) = fetch m p a ++ fetch m (p + (a : Int)) b := by
  simp only [fetch, List.range_add, List.map_append, List.map_map]
  congr 1
  apply List.map_congr_left
  intro k _
  simp only [Function.comp_apply, Int.natCast_add, Int.add_assoc]

theorem blit_below {m : Int → α} {p a : Int} {xs : List α} (below : a < p) : blit m p xs a = m a := by
  simp [blit, Int.not_le.mpr below]

theorem blit_above {m : Int → α} {p a : Int} {xs : List α} (above : p + (xs.length : Int) ≤ a) :
    blit m p xs a = m a := by
  have outside : xs.length ≤ (a - p).toNat := by omega
  simp [blit, List.getElem?_eq_none outside]

theorem blit_changed {m : Int → α} {p a : Int} {xs : List α} (changed : blit m p xs a ≠ m a) :
    p ≤ a ∧ a < p + (xs.length : Int) := by
  constructor
  · by_contra below
    exact changed (blit_below (Int.not_le.mp below))
  · by_contra above
    exact changed (blit_above (Int.not_lt.mp above))

theorem blit_inside {m : Int → α} {p : Int} {xs : List α} {k : Nat} (inside : k < xs.length) :
    blit m p xs (p + (k : Int)) = xs[k] := by
  have index : (p + (k : Int) - p).toNat = k := by omega
  have above : p ≤ p + (k : Int) := by omega
  unfold blit
  rw [if_pos above, index, List.getElem?_eq_getElem inside, Option.getD_some]

@[simp] theorem blit_nil (m : Int → α) (p : Int) : blit m p [] = m := by
  funext a
  simp [blit]

theorem blit_append (m : Int → α) (p : Int) (xs ys : List α) :
    blit m p (xs ++ ys) = blit (blit m p xs) (p + (xs.length : Int)) ys := by
  funext a
  by_cases below : a < p
  · rw [blit_below below, blit_below (by omega), blit_below below]
  by_cases first : a < p + (xs.length : Int)
  · obtain ⟨k, rfl⟩ : ∃ k : Nat, a = p + (k : Int) := ⟨(a - p).toNat, by omega⟩
    have inside : k < xs.length := by omega
    rw [blit_inside (by simp; omega), blit_below first, blit_inside inside,
      List.getElem_append_left inside]
  by_cases second : a < p + (xs.length : Int) + (ys.length : Int)
  · obtain ⟨k, rfl⟩ : ∃ k : Nat, a = p + (xs.length : Int) + (k : Int) :=
      ⟨(a - p - xs.length).toNat, by omega⟩
    have inside : k < ys.length := by omega
    have shift : p + (xs.length : Int) + (k : Int) = p + ((xs.length + k : Nat) : Int) := by omega
    rw [blit_inside inside, shift, blit_inside (by simp; omega),
      List.getElem_append_right (by omega)]
    simp
  · rw [blit_above (by simp; omega), blit_above (by omega), blit_above (by omega)]

theorem fetch_blit (m : Int → α) (p : Int) (xs : List α) : fetch (blit m p xs) p xs.length = xs := by
  apply List.ext_getElem (by simp)
  intro k _ inside
  rw [getElem_fetch, blit_inside inside]

theorem fetch_blit_below {m : Int → α} {p q : Int} {xs : List α} {n : Nat}
    (below : q + (n : Int) ≤ p) : fetch (blit m p xs) q n = fetch m q n :=
  fetch_congr fun _ _ => blit_below (by omega)

theorem fetch_blit_above {m : Int → α} {p q : Int} {xs : List α} {n : Nat}
    (above : p + (xs.length : Int) ≤ q) : fetch (blit m p xs) q n = fetch m q n :=
  fetch_congr fun _ _ => blit_above (by omega)

theorem fetch_blit_extend (m : Int → α) (p : Int) (n : Nat) (xs : List α) :
    fetch (blit m (p + (n : Int)) xs) p (n + xs.length) = fetch m p n ++ xs := by
  rw [fetch_add, fetch_blit_below (Int.le_refl _), fetch_blit]

end Base.Cells
