import Ldd3.Base.Tasks

/-!
Sections guarded by a semaphore. A task is inside a section while its `depth` is one. What the tasks
do inside is related to an abstract state: `stage` says how far the shared state has got towards it
while a task is inside, `settled` that the two agree when nobody is. If the steps inside keep the
relation and the steps outside do not touch it, then at most one task is ever inside and the shared
state is always on its way to what the abstract state says.
-/

namespace Base.Tasks

variable {σ τ ω δ ι : Type*} [DecidableEq ι] {P : Program σ τ ω} {init c : Config σ τ ι}

structure Guard (σ τ δ : Type*) where
  sem : σ → Int
  depth : τ → Nat
  history : σ → δ → Prop
  stage : δ → σ → τ → Prop
  settled : δ → σ → Prop

/-- The step leaves alone what the guard protects. -/
structure Guard.Keeps (G : Guard σ τ δ) (s s' : σ) : Prop where
  history : ∀ {d}, G.history s d → G.history s' d
  stage : ∀ {d y}, G.stage d s y → G.stage d s' y
  settled : ∀ {d}, G.settled d s → G.settled d s'

structure Guard.Sound (G : Guard σ τ δ) (P : Program σ τ ω) : Prop where
  inside : ∀ {s x s' x' n d}, P.step s x s' x' n → 0 < G.depth x → 0 ≤ G.sem s → G.history s d → G.stage d s x →
    G.sem s' + G.depth x' = G.sem s + G.depth x ∧ G.depth x' ≤ G.depth x ∧
      ∃ d', G.history s' d' ∧ (0 < G.depth x' → G.stage d' s' x') ∧ (G.depth x' = 0 → G.settled d' s')
  outside : ∀ {s x s' x' n}, P.step s x s' x' n → G.depth x = 0 →
    (G.Keeps s s' ∧ G.depth x' = 0 ∧ G.sem s' = G.sem s) ∨
      (0 < G.sem s ∧ G.depth x' = 1 ∧ G.sem s' = G.sem s - 1 ∧
        ∀ {d}, G.history s d → G.settled d s → G.history s' d ∧ G.stage d s' x')
  depth_notify : ∀ n y, G.depth (P.notify n y) = G.depth y
  stage_notify : ∀ {d s n y}, 0 < G.depth y → G.stage d s y → G.stage d s (P.notify n y)

variable [Fintype ι]

structure Guard.Guarded (G : Guard σ τ δ) (c : Config σ τ ι) : Prop where
  nonneg : 0 ≤ G.sem c.shared
  balance : G.sem c.shared + (∑ t, G.depth (c.task t) : Nat) = 1
  serial : ∃ d, G.history c.shared d ∧ (∀ t, 0 < G.depth (c.task t) → G.stage d c.shared (c.task t)) ∧
    ((∀ t, G.depth (c.task t) = 0) → G.settled d c.shared)

variable {G : Guard σ τ δ}

omit [DecidableEq ι] in
theorem Guard.Guarded.exclusive (guarded : G.Guarded c) {t u : ι} (mine : 0 < G.depth (c.task t))
    (yours : 0 < G.depth (c.task u)) : u = t := by
  have balance := guarded.balance
  have positive := guarded.nonneg
  have bound : ∑ t, G.depth (c.task t) ≤ 1 := by omega
  exact unique_of_sum_le_one bound yours mine

omit [DecidableEq ι] in
theorem Guard.Guarded.outside_of_free (guarded : G.Guarded c) (free : 0 < G.sem c.shared) (t : ι) :
    G.depth (c.task t) = 0 := by
  have balance := guarded.balance
  have none : ∑ t, G.depth (c.task t) = 0 := by omega
  exact Finset.sum_eq_zero_iff.mp none t (Finset.mem_univ t)

theorem Guard.Sound.step_inside (sound : G.Sound P) (guarded : G.Guarded c) {t : ι} {s' : σ} {x' : τ} {n : ω}
    (stepped : P.step c.shared (c.task t) s' x' n) (inside : 0 < G.depth (c.task t)) :
    G.Guarded (P.after c t s' x' n) := by
  obtain ⟨d, history, stages, _⟩ := guarded.serial
  obtain ⟨moved, fewer, d', history', still, left⟩ :=
    sound.inside stepped inside guarded.nonneg history (stages t inside)
  have nonneg := guarded.nonneg
  have balance := guarded.balance
  have sum := sum_after_add (c := c) G.depth sound.depth_notify t s' x' n
  refine ⟨by rw [after_shared]; omega, by rw [after_shared]; omega, d', history', ?_, ?_⟩
  · intro u insideU
    by_cases mine : u = t
    · subst u
      rw [after_same] at insideU ⊢
      exact still insideU
    · rw [after_other mine, sound.depth_notify] at insideU
      exact absurd (guarded.exclusive inside insideU) mine
  · intro none
    have own := none t
    rw [after_same] at own
    exact left own

theorem Guard.Sound.step_outside (sound : G.Sound P) (guarded : G.Guarded c) {t : ι} {s' : σ} {x' : τ} {n : ω}
    (stepped : P.step c.shared (c.task t) s' x' n) (outside : G.depth (c.task t) = 0) :
    G.Guarded (P.after c t s' x' n) := by
  obtain ⟨d, history, stages, alone⟩ := guarded.serial
  have nonneg := guarded.nonneg
  have balance := guarded.balance
  have sum := sum_after_add (c := c) G.depth sound.depth_notify t s' x' n
  rcases sound.outside stepped outside with ⟨keeps, still, same⟩ | ⟨free, entered, taken, enters⟩
  · refine ⟨by rw [after_shared]; omega, by rw [after_shared]; omega, d, keeps.history history, ?_, ?_⟩
    · intro u insideU
      have other : u ≠ t := by
        rintro rfl
        rw [after_same] at insideU
        omega
      rw [after_other other, sound.depth_notify] at insideU
      rw [after_other other, after_shared]
      exact sound.stage_notify insideU (keeps.stage (stages u insideU))
    · intro none
      refine keeps.settled (alone fun u => ?_)
      by_cases mine : u = t
      · rw [mine, outside]
      · have quiet := none u
        rwa [after_other mine, sound.depth_notify] at quiet
  · have quiet := guarded.outside_of_free free
    obtain ⟨history', stage⟩ := enters history (alone quiet)
    refine ⟨by rw [after_shared]; omega, by rw [after_shared]; omega, d, history', ?_, ?_⟩
    · intro u insideU
      by_cases mine : u = t
      · subst u
        rw [after_same, after_shared]
        exact stage
      · rw [after_other mine, sound.depth_notify, quiet u] at insideU
        exact absurd insideU (Nat.lt_irrefl 0)
    · intro none
      have own := none t
      rw [after_same] at own
      omega

theorem Program.Reachable.guarded (sound : G.Sound P) (free : G.sem init.shared = 1)
    (idle : ∀ t, G.depth (init.task t) = 0)
    (initial : ∃ d, G.history init.shared d ∧ G.settled d init.shared) (reachable : P.Reachable init c) :
    G.Guarded c := by
  refine reachable.invariant (I := G.Guarded) ?_ ?_
  · obtain ⟨d, history, settled⟩ := initial
    refine ⟨by omega, ?_, d, history, fun t inside => ?_, fun _ => settled⟩
    · rw [free, Finset.sum_eq_zero fun t _ => idle t]
      rfl
    · rw [idle t] at inside
      exact absurd inside (Nat.lt_irrefl 0)
  · intro c t s' x' n _ guarded stepped
    rcases Nat.eq_zero_or_pos (G.depth (c.task t)) with outside | inside
    · exact sound.step_outside guarded stepped outside
    · exact sound.step_inside guarded stepped inside

end Base.Tasks
