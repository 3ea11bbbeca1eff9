import Ldd3.Base.Cells
import Mathlib.Logic.Function.Basic

/-!
A memory with unfinished writes. Every task has a patch, the cells it has written so far from some
address on; the memory is a base with all patches laid over it. A task extends its patch cell by
cell, and when it is done the patch becomes part of the base. Nothing else is needed than that no
task writes where another one has a patch.
-/

namespace Base.Overlay

open Base.Cells

structure Patch (α : Type*) where
  start : Int
  cells : List α

variable {α ι : Type*}

def Patch.Covers (p : Patch α) (a : Int) : Prop := p.start ≤ a ∧ a < p.start + p.cells.length

structure Overlaid (base m : Int → α) (patch : ι → Patch α) : Prop where
  inside : ∀ t k (bound : k < (patch t).cells.length), m ((patch t).start + (k : Int)) = (patch t).cells[k]
  outside : ∀ a, (∀ t, ¬ (patch t).Covers a) → m a = base a

variable {base m : Int → α} {patch patch' : ι → Patch α}

theorem overlaid_empty (base : Int → α) {patch : ι → Patch α} (none : ∀ t, (patch t).cells = []) :
    Overlaid base base patch := by
  refine ⟨fun t k bound => ?_, fun _ _ => rfl⟩
  rw [none t] at bound
  exact absurd bound (Nat.not_lt_zero k)

theorem covers_cell {p : Patch α} {k : Nat} (bound : k < p.cells.length) : p.Covers (p.start + (k : Int)) := by
  unfold Patch.Covers
  omega

/-- One task writes the cell behind its patch. -/
theorem Overlaid.extend {t : ι} {x : α} (overlaid : Overlaid base m patch)
    (own : patch' t = ⟨(patch t).start, (patch t).cells ++ [x]⟩) (others : ∀ u, u ≠ t → patch' u = patch u)
    (apart : ∀ u, u ≠ t → ¬ (patch u).Covers ((patch t).start + ((patch t).cells.length : Int))) :
    Overlaid base (Function.update m ((patch t).start + ((patch t).cells.length : Int)) x) patch' := by
  constructor
  · intro u k bound
    by_cases mine : u = t
    · subst u
      simp only [own, List.length_append, List.length_singleton] at bound ⊢
      by_cases last : k = (patch t).cells.length
      · subst last
        simp
      · rw [Function.update_of_ne (by omega), List.getElem_append_left (by omega)]
        exact overlaid.inside t k (by omega)
    · have other := others u mine
      simp only [other] at bound ⊢
      have away := apart u mine
      have elsewhere : (patch u).start + (k : Int) ≠ (patch t).start + ((patch t).cells.length : Int) := by
        intro same
        exact away (same ▸ covers_cell bound)
      rw [Function.update_of_ne elsewhere]
      exact overlaid.inside u k bound
  · intro a uncovered
    have before : ∀ u, ¬ (patch u).Covers a := by
      intro u covered
      by_cases mine : u = t
      · subst u
        apply uncovered t
        simp only [own, Patch.Covers, List.length_append, List.length_singleton] at covered ⊢
        omega
      · exact uncovered u (others u mine ▸ covered)
    have elsewhere : a ≠ (patch t).start + ((patch t).cells.length : Int) := by
      rintro rfl
      apply uncovered t
      simp only [own, Patch.Covers, List.length_append, List.length_singleton]
      omega
    rw [Function.update_of_ne elsewhere]
    exact overlaid.outside a before

/-- A finished patch goes into the base. -/
theorem Overlaid.retire {t : ι} (patch' : ι → Patch α) (overlaid : Overlaid base m patch)
    (own : (patch' t).cells = []) (others : ∀ u, u ≠ t → patch' u = patch u) :
    Overlaid (blit base (patch t).start (patch t).cells) m patch' := by
  constructor
  · intro u k bound
    have other : u ≠ t := by
      rintro rfl
      rw [own] at bound
      exact absurd bound (Nat.not_lt_zero k)
    simp only [others u other] at bound ⊢
    exact overlaid.inside u k bound
  · intro a uncovered
    by_cases mine : (patch t).Covers a
    · obtain ⟨k, rfl⟩ : ∃ k : Nat, a = (patch t).start + (k : Int) :=
        ⟨(a - (patch t).start).toNat, by have := mine.1; omega⟩
      have bound : k < (patch t).cells.length := by
        have high := mine.2
        omega
      rw [blit_inside bound]
      exact overlaid.inside t k bound
    · have before : ∀ u, ¬ (patch u).Covers a := by
        intro u covered
        by_cases same : u = t
        · exact mine (same ▸ covered)
        · exact uncovered u (others u same ▸ covered)
      rw [overlaid.outside a before]
      by_cases below : a < (patch t).start
      · exact (blit_below below).symm
      · refine (blit_above ?_).symm
        unfold Patch.Covers at mine
        omega

/-- A task without a patch may change what it does otherwise. -/
theorem Overlaid.same (overlaid : Overlaid base m patch) (all : ∀ u, patch' u = patch u) :
    Overlaid base m patch' := by
  rw [show patch' = patch from funext all]
  exact overlaid

end Base.Overlay
