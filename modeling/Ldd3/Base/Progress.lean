import Ldd3.Base.Tasks

/-!
Runs that must end. A `Ranking` counts for every task the steps that may change what other tasks
see, its `debt`, and weighs where the task stands between two such steps. A step that lowers the
debt may raise the weights of all tasks, any other step lowers the weight of its own task and leaves
the others alone; so no run is longer than the debts and weights at its start allow.
-/

namespace Base.Tasks

variable {σ τ ω ι : Type*} [DecidableEq ι] {P : Program σ τ ω} {init c c' : Config σ τ ι}

/-- The program without the steps that are not `allowed`. -/
def Program.only (P : Program σ τ ω) (allowed : τ → τ → Prop) : Program σ τ ω :=
  ⟨fun s x s' x' n => P.step s x s' x' n ∧ allowed x x', P.notify⟩

structure Ranking (σ τ : Type*) where
  debt : τ → Nat
  weight : σ → τ → Nat
  limit : Nat
  weight_le : ∀ s x, weight s x ≤ limit

/-- A step lowers the rank of a configuration. -/
def Ranking.Lowers (R : Ranking σ τ) (notify : τ → τ) (s : σ) (x : τ) (s' : σ) (x' : τ) : Prop :=
  R.debt x' < R.debt x ∨
    (R.debt x' ≤ R.debt x ∧ R.weight s' x' < R.weight s x ∧ ∀ y, R.weight s' (notify y) ≤ R.weight s y)

variable [Fintype ι] {R : Ranking σ τ}

def Ranking.potential (R : Ranking σ τ) (c : Config σ τ ι) : Nat :=
  (R.limit * Fintype.card ι + 1) * (∑ t, R.debt (c.task t)) + ∑ t, R.weight c.shared (c.task t)

omit [DecidableEq ι] in
theorem sum_le_mul_card {f : ι → Nat} {most : Nat} (bound : ∀ t, f t ≤ most) : ∑ t, f t ≤ most * Fintype.card ι :=
  (Finset.sum_le_card_nsmul _ _ _ fun t _ => bound t).trans_eq (Nat.mul_comm _ _)

theorem sum_weight_after {t : ι} {s' : σ} {x' : τ} {n : ω} (lower : R.weight s' x' < R.weight c.shared (c.task t))
    (others : ∀ y, R.weight s' (P.notify n y) ≤ R.weight c.shared y) :
    ∑ u, R.weight (P.after c t s' x' n).shared ((P.after c t s' x' n).task u) <
      ∑ u, R.weight c.shared (c.task u) := by
  refine Finset.sum_lt_sum (fun u _ => ?_) ⟨t, Finset.mem_univ t, ?_⟩
  · by_cases mine : u = t
    · subst u
      rw [after_same, after_shared]
      exact lower.le
    · rw [after_other mine, after_shared]
      exact others _
  · rw [after_same, after_shared]
    exact lower

theorem potential_after (deaf : ∀ n x, R.debt (P.notify n x) = R.debt x) {t : ι} {s' : σ} {x' : τ} {n : ω}
    (lowers : R.Lowers (P.notify n) c.shared (c.task t) s' x') :
    R.potential (P.after c t s' x' n) < R.potential c := by
  have debts := sum_after_add (c := c) R.debt deaf t s' x' n
  unfold Ranking.potential
  rcases lowers with paid | ⟨same, lower, others⟩
  · have fewer : (∑ u, R.debt ((P.after c t s' x' n).task u)) + 1 ≤ ∑ u, R.debt (c.task u) := by omega
    have scaled := Nat.mul_le_mul_left (R.limit * Fintype.card ι + 1) fewer
    have bound : ∑ u, R.weight s' ((P.after c t s' x' n).task u) ≤ R.limit * Fintype.card ι :=
      sum_le_mul_card fun u => R.weight_le _ _
    rw [after_shared]
    rw [Nat.mul_add, Nat.mul_one] at scaled
    omega
  · have weights := sum_weight_after lower others
    have fewer : ∑ u, R.debt ((P.after c t s' x' n).task u) ≤ ∑ u, R.debt (c.task u) := by omega
    have scaled := Nat.mul_le_mul_left (R.limit * Fintype.card ι + 1) fewer
    omega

theorem Program.Stretch.bounded {seen : List (Config σ τ ι)} (deaf : ∀ n x, R.debt (P.notify n x) = R.debt x)
    {I : Config σ τ ι → Prop} (start : I c)
    (keep : ∀ c t s' x' n, I c → P.step c.shared (c.task t) s' x' n → I (P.after c t s' x' n))
    (lower : ∀ c t s' x' n, I c → P.step c.shared (c.task t) s' x' n →
      R.Lowers (P.notify n) c.shared (c.task t) s' x')
    (stretch : P.Stretch c seen c') : I c' ∧ seen.length + R.potential c' ≤ R.potential c + 1 := by
  induction stretch with
  | refl => exact ⟨start, by simp only [List.length_singleton]; omega⟩
  | step t _ stepped ih =>
    obtain ⟨holds, bound⟩ := ih
    have less := potential_after deaf (lower _ t _ _ _ holds stepped)
    refine ⟨keep _ t _ _ _ holds stepped, ?_⟩
    rw [List.length_append, List.length_singleton]
    omega

omit [DecidableEq ι] in
theorem potential_le {most : Nat} (debts : ∀ x, R.debt x ≤ most) (c : Config σ τ ι) :
    R.potential c ≤ (R.limit * Fintype.card ι + 1) * (most * Fintype.card ι) + R.limit * Fintype.card ι := by
  have total : ∑ t, R.debt (c.task t) ≤ most * Fintype.card ι := sum_le_mul_card fun t => debts _
  exact Nat.add_le_add (Nat.mul_le_mul_left _ total) (sum_le_mul_card fun t => R.weight_le _ _)

end Base.Tasks
