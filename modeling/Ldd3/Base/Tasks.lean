import Mathlib.Algebra.BigOperators.Group.Finset.Piecewise
import Mathlib.Algebra.Order.BigOperators.Group.Finset
import Mathlib.Data.Fintype.Basic

/-!
Interleaved tasks. Any number of tasks run one program over a shared state, one atomic step of
one task at a time. A step may send a notice, which reaches every other task at once; that is how
a wake-up changes tasks that are not running.

Six rules cover the proofs about such programs: an invariant over reachable configurations
(`invariant`, and its forms for the shared state alone and for each task by itself), the exclusion
that a lock gives (`exclusive`), a quantity that every step moves between the shared state and the
stepping task (`conserved`) or that both gain (`tracked`), exclusion from such a quantity
(`unique_of_sum_le_one`), and the absence of lost wake-ups (`no_lost_wakeup`). A run of one task alone
is `Solo`; a `Stretch` of a run keeps the configurations it passes through, for statements about what
was the case at some moment of a call.
-/

namespace Base.Tasks

variable {σ τ ω ι : Type*}

/-- The program of one task. `step s x s' x' n` is one atomic step from shared state `s` and own
state `x`, sending notice `n`; `notify n` is what the notice does to another task. -/
structure Program (σ τ ω : Type*) where
  step : σ → τ → σ → τ → ω → Prop
  notify : ω → τ → τ

structure Config (σ τ ι : Type*) where
  shared : σ
  task : ι → τ

variable [DecidableEq ι] {P : Program σ τ ω} {init c : Config σ τ ι}

def Program.after (P : Program σ τ ω) (c : Config σ τ ι) (t : ι) (s' : σ) (x' : τ) (n : ω) :
    Config σ τ ι :=
  ⟨s', Function.update (fun u => P.notify n (c.task u)) t x'⟩

inductive Program.Reachable (P : Program σ τ ω) (init : Config σ τ ι) : Config σ τ ι → Prop where
  | init : P.Reachable init init
  | step {c : Config σ τ ι} (t : ι) {s' : σ} {x' : τ} {n : ω} :
      P.Reachable init c → P.step c.shared (c.task t) s' x' n → P.Reachable init (P.after c t s' x' n)

@[simp] theorem after_shared (t : ι) (s' : σ) (x' : τ) (n : ω) : (P.after c t s' x' n).shared = s' := rfl

@[simp] theorem after_same (t : ι) (s' : σ) (x' : τ) (n : ω) : (P.after c t s' x' n).task t = x' := by
  simp [Program.after]

theorem after_other {t u : ι} (other : u ≠ t) (s' : σ) (x' : τ) (n : ω) :
    (P.after c t s' x' n).task u = P.notify n (c.task u) := by
  simp [Program.after, other]

theorem Program.Reachable.invariant {I : Config σ τ ι → Prop} (initial : I init)
    (preserve : ∀ c t s' x' n, P.Reachable init c → I c → P.step c.shared (c.task t) s' x' n →
      I (P.after c t s' x' n))
    (reachable : P.Reachable init c) : I c := by
  induction reachable with
  | init => exact initial
  | step t before stepped ih => exact preserve _ t _ _ _ before ih stepped

theorem Program.Reachable.shared_invariant {I : σ → Prop} (initial : I init.shared)
    (preserve : ∀ s x s' x' n, I s → P.step s x s' x' n → I s') (reachable : P.Reachable init c) :
    I c.shared :=
  reachable.invariant (I := fun c => I c.shared) initial
    fun _ _ _ _ _ _ before stepped => preserve _ _ _ _ _ before stepped

theorem Program.Reachable.local_invariant {A : σ → τ → Prop} (initial : ∀ t, A init.shared (init.task t))
    (own : ∀ (c : Config σ τ ι) t s' x' n, P.Reachable init c → A c.shared (c.task t) →
      P.step c.shared (c.task t) s' x' n → A s' x')
    (undisturbed : ∀ (c : Config σ τ ι) t u s' x' n, P.Reachable init c → u ≠ t →
      A c.shared (c.task t) → A c.shared (c.task u) → P.step c.shared (c.task t) s' x' n →
      A s' (P.notify n (c.task u)))
    (reachable : P.Reachable init c) (t : ι) : A c.shared (c.task t) := by
  refine reachable.invariant (I := fun c => ∀ t, A c.shared (c.task t)) initial ?_ t
  intro c t s' x' n before holds stepped u
  by_cases same : u = t
  · subst u
    rw [after_shared, after_same]
    exact own c t s' x' n before (holds t) stepped
  · rw [after_shared, after_other same]
    exact undisturbed c t u s' x' n before same (holds t) (holds u) stepped

/-- A lock: a step takes it when it is free, gives it back, or leaves it alone. Then its holder
is unique and it is not free while it is held. -/
theorem Program.Reachable.exclusive (free : σ → Prop) (holds : τ → Prop) (reachable : P.Reachable init c)
    (idle : ∀ t, ¬ holds (init.task t))
    (locking : ∀ s x s' x' n, P.step s x s' x' n →
      (free s ∧ ¬ free s' ∧ holds x') ∨ (holds x ∧ ¬ holds x') ∨ ((free s' → free s) ∧ (holds x' → holds x)))
    (quiet : ∀ n x, holds (P.notify n x) ↔ holds x) {t : ι} (held : holds (c.task t)) :
    ¬ free c.shared ∧ ∀ u, holds (c.task u) → u = t := by
  refine reachable.invariant (I := fun c => ∀ t, holds (c.task t) → ¬ free c.shared ∧
    ∀ u, holds (c.task u) → u = t) (fun t held => absurd held (idle t)) ?_ t held
  intro c t s' x' n _ before stepped v held
  have others : ∀ u, holds ((P.after c t s' x' n).task u) → u ≠ t → holds (c.task u) := by
    intro u held other
    rw [after_other other] at held
    exact (quiet n _).mp held
  have mine : holds ((P.after c t s' x' n).task t) → holds x' := by
    rw [after_same]
    exact id
  rw [after_shared]
  rcases locking _ _ _ _ _ stepped with ⟨wasFree, nowTaken, _⟩ | ⟨had, gave⟩ | ⟨same, kept⟩
  · have nobody : ∀ u, holds ((P.after c t s' x' n).task u) → u = t := by
      intro u held
      by_contra other
      exact (before u (others u held other)).1 wasFree
    refine ⟨nowTaken, fun u heldU => ?_⟩
    rw [nobody u heldU, nobody v held]
  · have different : v ≠ t := fun eq => gave (mine (eq ▸ held))
    exact absurd ((before t had).2 v (others v held different)) different
  · have earlier : ∀ u, holds ((P.after c t s' x' n).task u) → holds (c.task u) := by
      intro u held
      by_cases eq : u = t
      · exact eq ▸ kept (mine (eq ▸ held))
      · exact others u held eq
    obtain ⟨taken, unique⟩ := before v (earlier v held)
    exact ⟨fun nowFree => taken (same nowFree), fun u heldU => unique u (earlier u heldU)⟩

/-- The configurations of runs that satisfy `ok` all along. -/
inductive Program.Keeping (P : Program σ τ ω) (ok : Config σ τ ι → Prop) (init : Config σ τ ι) :
    Config σ τ ι → Prop where
  | init : ok init → P.Keeping ok init init
  | step {c : Config σ τ ι} (t : ι) {s' : σ} {x' : τ} {n : ω} : P.Keeping ok init c →
      P.step c.shared (c.task t) s' x' n → ok (P.after c t s' x' n) → P.Keeping ok init (P.after c t s' x' n)

theorem Program.Keeping.ok {ok : Config σ τ ι → Prop} (keeping : P.Keeping ok init c) : ok c := by
  cases keeping <;> assumption

theorem Program.Keeping.invariant {ok I : Config σ τ ι → Prop} (initial : I init)
    (preserve : ∀ c t s' x' n, ok c → ok (P.after c t s' x' n) → I c → P.step c.shared (c.task t) s' x' n →
      I (P.after c t s' x' n))
    (keeping : P.Keeping ok init c) : I c := by
  induction keeping with
  | init => exact initial
  | step t before stepped fine ih => exact preserve _ t _ _ _ before.ok fine ih stepped

/-- Steps of one task that leave the other tasks alone. -/
inductive Program.Solo (P : Program σ τ ω) : σ → τ → σ → τ → Prop where
  | refl (s : σ) (x : τ) : P.Solo s x s x
  | step {s s₁ s₂ : σ} {x x₁ x₂ : τ} (n : ω) :
      P.step s x s₁ x₁ n → (∀ y, P.notify n y = y) → P.Solo s₁ x₁ s₂ x₂ → P.Solo s x s₂ x₂

theorem Program.Reachable.solo (reachable : P.Reachable init c) (t : ι) {s' : σ} {x' : τ}
    (alone : P.Solo c.shared (c.task t) s' x') :
    ∃ c', P.Reachable init c' ∧ c'.shared = s' ∧ c'.task t = x' ∧ ∀ u, u ≠ t → c'.task u = c.task u := by
  generalize starts : c.shared = s, begins : c.task t = x at alone
  induction alone generalizing c with
  | refl s x => exact ⟨c, reachable, starts, begins, fun _ _ => rfl⟩
  | step n stepped silent _ ih =>
    subst starts begins
    obtain ⟨c', reached, shared, own, same⟩ := ih (reachable.step t stepped) rfl (after_same _ _ _ _)
    refine ⟨c', reached, shared, own, fun u other => ?_⟩
    rw [same u other, after_other other, silent]

/-- Steps of one task, whatever notices they send. -/
inductive Program.Bout (P : Program σ τ ω) : σ → τ → σ → τ → Prop where
  | refl (s : σ) (x : τ) : P.Bout s x s x
  | step {s s₁ s₂ : σ} {x x₁ x₂ : τ} (n : ω) : P.step s x s₁ x₁ n → P.Bout s₁ x₁ s₂ x₂ → P.Bout s x s₂ x₂

theorem Program.Reachable.bout (reachable : P.Reachable init c) (t : ι) {s' : σ} {x' : τ}
    (alone : P.Bout c.shared (c.task t) s' x') :
    ∃ c', P.Reachable init c' ∧ c'.shared = s' ∧ c'.task t = x' ∧
      ∀ u, u ≠ t → (∀ n, P.notify n (c.task u) = c.task u) → c'.task u = c.task u := by
  generalize starts : c.shared = s, begins : c.task t = x at alone
  induction alone generalizing c with
  | refl s x => exact ⟨c, reachable, starts, begins, fun _ _ _ => rfl⟩
  | @step s s₁ s₂ x x₁ x₂ n stepped _ ih =>
    subst starts begins
    obtain ⟨c', reached, shared, own, same⟩ := ih (reachable.step t stepped) rfl (after_same _ _ _ _)
    refine ⟨c', reached, shared, own, fun u other deaf => ?_⟩
    have before : (P.after c t s₁ x₁ n).task u = c.task u := (after_other other s₁ x₁ n).trans (deaf n)
    rw [same u other (by rw [before]; exact deaf), before]

section Project

variable {σ' τ' ω' : Type*} {Q : Program σ' τ' ω'}

def Config.map (f : σ → σ') (g : τ → τ') (c : Config σ τ ι) : Config σ' τ' ι := ⟨f c.shared, fun t => g (c.task t)⟩

/-- A program whose steps show as steps of another one, or not at all, runs where that one does. -/
theorem Program.Reachable.project (f : σ → σ') (g : τ → τ') (reachable : P.Reachable init c)
    (shows : ∀ s x s' x' n, P.step s x s' x' n →
      (f s' = f s ∧ g x' = g x ∧ ∀ y, g (P.notify n y) = g y) ∨
        ∃ m, Q.step (f s) (g x) (f s') (g x') m ∧ ∀ y, g (P.notify n y) = Q.notify m (g y)) :
    Q.Reachable (init.map f g) (c.map f g) := by
  induction reachable with
  | init => exact .init
  | @step c t s' x' n _ stepped ih =>
    rcases shows _ _ _ _ _ stepped with ⟨shared, own, others⟩ | ⟨m, taken, others⟩
    · have same : (P.after c t s' x' n).map f g = c.map f g := by
        simp only [Config.map, after_shared, shared, Config.mk.injEq, true_and]
        funext u
        by_cases mine : u = t
        · rw [mine, after_same, own]
        · rw [after_other mine, others]
      rw [same]
      exact ih
    · have after : (P.after c t s' x' n).map f g = Q.after (c.map f g) t (f s') (g x') m := by
        simp only [Config.map, Program.after, Config.mk.injEq, true_and]
        funext u
        by_cases mine : u = t
        · rw [mine, Function.update_self, Function.update_self]
        · rw [Function.update_of_ne mine, Function.update_of_ne mine, others]
      rw [after]
      exact ih.step t taken

end Project

/-- A stretch of a run and the configurations seen on it, both ends included. -/
inductive Program.Stretch (P : Program σ τ ω) (c : Config σ τ ι) :
    List (Config σ τ ι) → Config σ τ ι → Prop where
  | refl : P.Stretch c [c] c
  | step {seen : List (Config σ τ ι)} {c' : Config σ τ ι} (t : ι) {s' : σ} {x' : τ} {n : ω} :
      P.Stretch c seen c' → P.step c'.shared (c'.task t) s' x' n →
        P.Stretch c (seen ++ [P.after c' t s' x' n]) (P.after c' t s' x' n)

theorem Program.Stretch.reachable {seen : List (Config σ τ ι)} {c' : Config σ τ ι}
    (stretch : P.Stretch c seen c') (before : P.Reachable init c) : P.Reachable init c' := by
  induction stretch with
  | refl => exact before
  | step t _ stepped ih => exact ih.step t stepped

theorem Program.Stretch.last_mem {seen : List (Config σ τ ι)} {c' : Config σ τ ι}
    (stretch : P.Stretch c seen c') : c' ∈ seen := by
  cases stretch <;> simp

theorem Program.Stretch.split {seen : List (Config σ τ ι)} {c' e : Config σ τ ι} (stretch : P.Stretch c seen c')
    (member : e ∈ seen) : ∃ before later, P.Stretch c before e ∧ P.Stretch e later c' := by
  induction stretch with
  | refl =>
    cases List.mem_singleton.mp member
    exact ⟨_, _, .refl, .refl⟩
  | step t earlier stepped ih =>
    rcases List.mem_append.mp member with inside | last
    · obtain ⟨before, later, first, second⟩ := ih inside
      exact ⟨before, _, first, second.step t stepped⟩
    · cases List.mem_singleton.mp last
      exact ⟨_, _, earlier.step t stepped, .refl⟩

section Conserved

variable [Fintype ι]

theorem sum_after {M : Type*} [AddCommMonoid M] {weight : τ → M} {n : ω}
    (quiet : ∀ x, weight (P.notify n x) = weight x) (t : ι) (s' : σ) (x' : τ) :
    ∑ u, weight ((P.after c t s' x' n).task u) =
      weight x' + ∑ u ∈ Finset.univ.erase t, weight (c.task u) := by
  rw [← Finset.add_sum_erase _ _ (Finset.mem_univ t), after_same]
  congr 1
  apply Finset.sum_congr rfl
  intro u member
  rw [after_other (Finset.ne_of_mem_erase member), quiet]

/-- What the task's weight gains in a step, the sum gains. -/
theorem sum_after_add (weight : τ → Nat) (quiet : ∀ n x, weight (P.notify n x) = weight x) (t : ι) (s' : σ)
    (x' : τ) (n : ω) :
    (∑ u, weight ((P.after c t s' x' n).task u)) + weight (c.task t) =
      (∑ u, weight (c.task u)) + weight x' := by
  have moved := sum_after (c := c) (quiet n) t s' x'
  have whole := Finset.add_sum_erase _ (fun u => weight (c.task u)) (Finset.mem_univ t)
  rw [moved, ← whole]
  omega

def Config.count (c : Config σ τ ι) (p : τ → Prop) [DecidablePred p] : Nat :=
  (Finset.univ.filter fun t => p (c.task t)).card

omit [DecidableEq ι] in
theorem count_eq_sum (p : τ → Prop) [DecidablePred p] :
    c.count p = ∑ t, if p (c.task t) then 1 else 0 := Finset.card_filter _ _

omit [DecidableEq ι] in
theorem count_le_card (p : τ → Prop) [DecidablePred p] : c.count p ≤ Fintype.card ι :=
  Finset.card_filter_le _ _

omit [DecidableEq ι] in
theorem count_eq_zero {p : τ → Prop} [DecidablePred p] : c.count p = 0 ↔ ∀ t, ¬ p (c.task t) := by
  simp [Config.count]

theorem count_after {p : τ → Prop} [DecidablePred p] {n : ω} (quiet : ∀ x, p (P.notify n x) ↔ p x)
    (t : ι) (s' : σ) (x' : τ) :
    (P.after c t s' x' n).count p + (if p (c.task t) then 1 else 0) =
      c.count p + if p x' then 1 else 0 := by
  let weight : τ → Nat := fun x => if p x then 1 else 0
  have weights : ∀ x, weight (P.notify n x) = weight x := fun x => by simp only [weight, quiet]
  have moved := sum_after (c := c) weights t s' x'
  have whole := Finset.add_sum_erase _ (fun u => weight (c.task u)) (Finset.mem_univ t)
  rw [count_eq_sum, count_eq_sum]
  simp only [weight] at moved whole
  omega

theorem Program.Reachable.conserved {M : Type*} [AddCommMonoid M] (value : σ → M) (weight : τ → M)
    (balance : ∀ s x s' x' n, P.step s x s' x' n → value s' + weight x' = value s + weight x)
    (quiet : ∀ n x, weight (P.notify n x) = weight x) (reachable : P.Reachable init c) :
    value c.shared + ∑ t, weight (c.task t) = value init.shared + ∑ t, weight (init.task t) := by
  refine reachable.invariant
    (I := fun c => value c.shared + ∑ t, weight (c.task t) =
      value init.shared + ∑ t, weight (init.task t)) rfl ?_
  intro c t s' x' n _ before stepped
  rw [sum_after (quiet n), after_shared, ← add_assoc, balance _ _ _ _ _ stepped, add_assoc,
    Finset.add_sum_erase _ (fun u => weight (c.task u)) (Finset.mem_univ t)]
  exact before

/-- What the shared state gains in a step, the stepping task gains too. -/
theorem Program.Reachable.tracked {M : Type*} [AddCommMonoid M] (value : σ → M) (weight : τ → M)
    (initial : value init.shared = ∑ t, weight (init.task t))
    (gain : ∀ s x s' x' n, P.step s x s' x' n →
      ∃ more, value s' = value s + more ∧ weight x' = weight x + more)
    (quiet : ∀ n x, weight (P.notify n x) = weight x) (reachable : P.Reachable init c) :
    value c.shared = ∑ t, weight (c.task t) := by
  refine reachable.invariant (I := fun c => value c.shared = ∑ t, weight (c.task t)) initial ?_
  intro c t s' x' n _ before stepped
  obtain ⟨more, shared, own⟩ := gain _ _ _ _ _ stepped
  have whole := Finset.add_sum_erase _ (fun u => weight (c.task u)) (Finset.mem_univ t)
  rw [sum_after (quiet n), after_shared, shared, own, before, ← whole, add_right_comm]

omit [DecidableEq ι] in
theorem unique_of_sum_le_one {weight : ι → Nat} (bound : ∑ t, weight t ≤ 1) {t u : ι}
    (first : 0 < weight t) (second : 0 < weight u) : t = u := by
  classical
  by_contra different
  have both : weight t + weight u ≤ ∑ s, weight s := by
    rw [← Finset.sum_pair different]
    exact Finset.sum_le_sum_of_subset (Finset.subset_univ _)
  omega

end Conserved

/-- A waiting discipline. A task is `committed` once it has seen its condition fail while it was
enqueued, until a notice or its own step takes that back; `ready` is the condition, and a task
that `owes` has made some condition true and not yet sent the notice. -/
structure Discipline (σ τ : Type*) where
  committed : τ → Prop
  ready : σ → τ → Prop
  owes : τ → Prop

def Discipline.NoLostWakeup (D : Discipline σ τ) (c : Config σ τ ι) : Prop :=
  ∀ u, D.committed (c.task u) → D.ready c.shared (c.task u) → ∃ t, D.owes (c.task t)

/-- No wake-up is lost if a task commits only when its condition fails, the step that makes a
condition true leaves its task owing, and an owing task gives up its debt only with a notice after
which nobody is committed. -/
theorem Program.Reachable.no_lost_wakeup (D : Discipline σ τ) (reachable : P.Reachable init c)
    (idle : ∀ t, ¬ D.committed (init.task t))
    (commit : ∀ (c : Config σ τ ι) t s' x' n, P.Reachable init c →
      P.step c.shared (c.task t) s' x' n → D.committed x' → D.ready s' x' →
      D.committed (c.task t) ∧ D.ready c.shared (c.task t) ∧ ¬ D.owes (c.task t))
    (raise : ∀ (c : Config σ τ ι) t u s' x' n, P.Reachable init c → u ≠ t →
      P.step c.shared (c.task t) s' x' n → D.ready s' (P.notify n (c.task u)) →
      D.ready c.shared (c.task u) ∨ D.owes x')
    (discharge : ∀ s x s' x' n, P.step s x s' x' n → D.owes x →
      D.owes x' ∨ ∀ y, ¬ D.committed (P.notify n y))
    (keepCommitted : ∀ n y, D.committed (P.notify n y) → D.committed y)
    (keepOwing : ∀ n y, D.owes y → D.owes (P.notify n y)) :
    D.NoLostWakeup c := by
  refine reachable.invariant (I := D.NoLostWakeup) (fun t committed => absurd committed (idle t)) ?_
  intro c t s' x' n before holds stepped u committed ready
  rw [after_shared] at ready
  -- the debt of another task survives the step, the debt of `t` itself is looked up in `discharge`
  have carry : ∀ v, D.owes (c.task v) → v ≠ t → ∃ w, D.owes ((P.after c t s' x' n).task w) := by
    intro v owes other
    exact ⟨v, by rw [after_other other]; exact keepOwing n _ owes⟩
  by_cases same : u = t
  · subst u
    rw [after_same] at committed ready
    obtain ⟨was, open', free⟩ := commit c t s' x' n before stepped committed ready
    obtain ⟨v, owes⟩ := holds t was open'
    exact carry v owes fun eq => free (eq ▸ owes)
  · rw [after_other same] at committed ready
    rcases raise c t u s' x' n before same stepped ready with open' | owes
    · obtain ⟨v, owes⟩ := holds u (keepCommitted n _ committed) open'
      by_cases mine : v = t
      · subst v
        rcases discharge _ _ _ _ _ stepped owes with still | silent
        · exact ⟨t, by rwa [after_same]⟩
        · exact absurd committed (silent _)
      · exact carry v owes mine
    · exact ⟨t, by rwa [after_same]⟩

end Base.Tasks
