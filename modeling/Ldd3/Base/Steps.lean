import Mathlib.Data.Nat.ModEq

/-!
Counted runs of a step relation, and traces, which keep the states on the way and what each step was.
What every step keeps, a run keeps; what a trace has lost, one of its steps has lost. A counter that
wraps around still tells short runs apart: it is back where it was only if nothing that it counts has
happened.
-/

namespace Base.Steps

variable {σ α ι : Type*}

inductive Run (R : σ → σ → Prop) (s : σ) : Nat → σ → Prop where
  | refl : Run R s 0 s
  | step {n : Nat} {s' s'' : σ} (run : Run R s n s') (step : R s' s'') : Run R s (n + 1) s''

variable {R : σ → σ → Prop} {s s' : σ} {n : Nat}

theorem Run.invariant {I : σ → Prop} (keeps : ∀ s s', I s → R s s' → I s') (run : Run R s n s') (start : I s) :
    I s' := by
  induction run with
  | refl => exact start
  | step run step ih => exact keeps _ _ ih step

/-- Each step leaves the version and what it stands for, or goes on to the next version. -/
theorem Run.version {I : σ → Prop} (keeps : ∀ s s', I s → R s s' → I s') {m : Nat} {version : σ → Nat}
    {view : σ → α} (low : ∀ s, version s < m)
    (counts : ∀ s s', I s → R s s' →
      (version s' = version s ∧ view s' = view s) ∨ version s' = (version s + 1) % m)
    (start : I s) (run : Run R s n s') (short : n < m) (same : version s' = version s) : view s' = view s := by
  have counted : ∃ k ≤ n, version s' = (version s + k) % m ∧ (k = 0 → view s' = view s) := by
    clear short same
    induction run with
    | refl => exact ⟨0, Nat.le_refl 0, (Nat.mod_eq_of_lt (low s)).symm, fun _ => rfl⟩
    | step run step ih =>
      obtain ⟨k, few, at', quiet⟩ := ih
      rcases counts _ _ (run.invariant keeps start) step with ⟨kept, viewed⟩ | next
      · exact ⟨k, Nat.le_succ_of_le few, kept.trans at', fun none => viewed.trans (quiet none)⟩
      · refine ⟨k + 1, Nat.succ_le_succ few, ?_, fun none => absurd none (Nat.succ_ne_zero k)⟩
        rw [next, at', Nat.mod_add_mod, Nat.add_assoc]
  obtain ⟨k, few, at', quiet⟩ := counted
  apply quiet
  have wrapped : (version s + k) % m = (version s + 0) % m := by
    rw [← at', same, Nat.add_zero, Nat.mod_eq_of_lt (low s)]
  have none : k ≡ 0 [MOD m] := Nat.ModEq.add_left_cancel' (version s) wrapped
  exact Nat.eq_zero_of_dvd_of_lt (Nat.modEq_zero_iff_dvd.mp none) (Nat.lt_of_le_of_lt few short)

/-- The first `n` steps through the states `s`, of which step `k` is `a k`. -/
def Trace (L : σ → ι → σ → Prop) (n : Nat) (s : Nat → σ) (a : Nat → ι) : Prop := ∀ k < n, L (s k) (a k) (s (k + 1))

namespace Trace

variable {L : σ → ι → σ → Prop} {s : Nat → σ} {a : Nat → ι}

theorem invariant {I : σ → Prop} (keeps : ∀ s a s', I s → L s a s' → I s') (trace : Trace L n s a) (start : I (s 0)) :
    ∀ k ≤ n, I (s k) := by
  intro k low
  induction k with
  | zero => exact start
  | succ k ih => exact keeps _ _ _ (ih (Nat.le_of_succ_le low)) (trace k low)

theorem lost {P : σ → Prop} (trace : Trace L n s a) (before : P (s 0)) (after : ¬ P (s n)) :
    ∃ k < n, L (s k) (a k) (s (k + 1)) ∧ P (s k) ∧ ¬ P (s (k + 1)) := by
  induction n with
  | zero => exact absurd before after
  | succ n ih =>
    by_cases still : P (s n)
    · exact ⟨n, Nat.lt_succ_self n, trace n (Nat.lt_succ_self n), still, after⟩
    · obtain ⟨k, low, rest⟩ := ih (fun k low => trace k (Nat.lt_succ_of_lt low)) still
      exact ⟨k, Nat.lt_succ_of_lt low, rest⟩

end Trace

end Base.Steps
