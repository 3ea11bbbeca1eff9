import Ldd3.Base.Tasks
import Ldd3.Base.Words
import Mathlib.Algebra.BigOperators.Ring.Finset

/-!
The single-open device of `access/scullb-onlyone_access.c`. The counter `available` starts at 1;
an open that decrements it to 0 owns the device, every other open undoes its decrement and fails.
A task here is one open file from its `open` to its `close`, so a process that opens the device
twice is two tasks. A task holds the device from the decrement that gave zero to the increment of
its close.
-/

namespace Ldd3.Access.SingleOpen

open Base.Tasks Base.Words

def atomicInc (v : Int) : Int := toInt32 (v + 1)

def atomicDecAndTest (v : Int) : Int × Bool := (toInt32 (v - 1), toInt32 (v - 1) = 0)

inductive Pc where
  | idle
  -- in `sdev_open`: before the decrement, after one that failed and is to be undone, after the
  -- undo with `-EBUSY` to return, after one that gave zero with 0 to return
  | opening | failed | busy | opened
  | holding
  -- in `sdev_close`, before the increment
  | closing
  deriving DecidableEq

def Pc.Holds (x : Pc) : Prop := x = .opened ∨ x = .holding ∨ x = .closing

instance : DecidablePred Pc.Holds := fun x => inferInstanceAs (Decidable (x = _ ∨ x = _ ∨ x = _))

inductive Step : Int → Pc → Int → Pc → Unit → Prop where
  | sdevOpen (v) : Step v .idle v .opening ()
  | decrement (v) (zero : (atomicDecAndTest v).2 = true) :
      Step v .opening (atomicDecAndTest v).1 .opened ()
  | decrementFails (v) (nonzero : (atomicDecAndTest v).2 = false) :
      Step v .opening (atomicDecAndTest v).1 .failed ()
  | restore (v) : Step v .failed (atomicInc v) .busy ()
  | returnBusy (v) : Step v .busy v .idle ()
  | returnOk (v) : Step v .opened v .holding ()
  | sdevClose (v) : Step v .holding v .closing ()
  | increment (v) : Step v .closing (atomicInc v) .idle ()

def program : Program Int Pc Unit := ⟨Step, fun _ x => x⟩

-- `ATOMIC_INIT(1)` and nobody in a call
def loaded (ι : Type*) : Config Int Pc ι := ⟨1, fun _ => .idle⟩

variable {ι : Type*} [DecidableEq ι] [Fintype ι] {c : Config Int Pc ι}

def Pc.taken (x : Pc) : Nat := (if x.Holds then 1 else 0) + if x = .failed then 1 else 0

omit [DecidableEq ι] in
theorem sum_taken (c : Config Int Pc ι) :
    ∑ t, (c.task t).taken = c.count Pc.Holds + c.count (· = Pc.failed) := by
  rw [count_eq_sum, count_eq_sum, ← Finset.sum_add_distrib]
  rfl

theorem step_residue {s s' : Int} {x x' : Pc} {n : Unit} (stepped : Step s x s' x' n) :
    (s' : ZMod (2 ^ 32)) + (x'.taken : ZMod (2 ^ 32)) = s + (x.taken : ZMod (2 ^ 32)) := by
  have increment : ((atomicInc s : Int) : ZMod (2 ^ 32)) = s + 1 := by
    rw [atomicInc, toInt32_residue, Int.cast_add, Int.cast_one]
  have decrement : ((atomicDecAndTest s).1 : ZMod (2 ^ 32)) = s - 1 := by
    rw [atomicDecAndTest, toInt32_residue, Int.cast_sub, Int.cast_one]
  cases stepped with
  | decrement =>
    rw [decrement, show Pc.opened.taken = 1 by decide, show Pc.opening.taken = 0 by decide,
      Nat.cast_one, Nat.cast_zero, sub_add_cancel, add_zero]
  | decrementFails =>
    rw [decrement, show Pc.failed.taken = 1 by decide, show Pc.opening.taken = 0 by decide,
      Nat.cast_one, Nat.cast_zero, sub_add_cancel, add_zero]
  | restore =>
    rw [increment, show Pc.failed.taken = 1 by decide, show Pc.busy.taken = 0 by decide,
      Nat.cast_one, Nat.cast_zero, add_zero]
  | increment =>
    rw [increment, show Pc.closing.taken = 1 by decide, show Pc.idle.taken = 0 by decide,
      Nat.cast_one, Nat.cast_zero, add_zero]
  | _ => rfl

theorem counter_residue (reachable : program.Reachable (loaded ι) c) :
    (c.shared : ZMod (2 ^ 32)) + ((∑ t, (c.task t).taken : Nat) : ZMod (2 ^ 32)) = 1 := by
  rw [Nat.cast_sum, reachable.conserved (fun v : Int => (v : ZMod (2 ^ 32)))
    (fun x : Pc => (x.taken : ZMod (2 ^ 32))) (fun _ _ _ _ _ => step_residue) fun _ _ => rfl]
  simp [loaded, Pc.taken, Pc.Holds]

omit [Fintype ι] in
theorem counter_range (reachable : program.Reachable (loaded ι) c) :
    -2 ^ 31 ≤ c.shared ∧ c.shared < 2 ^ 31 := by
  refine reachable.shared_invariant (I := fun v : Int => -2 ^ 31 ≤ v ∧ v < 2 ^ 31) ?_ ?_
  · simp [loaded]
  · intro s x s' x' n before stepped
    cases stepped <;> first | exact before | exact toInt32_range _

theorem counter_exact (few : Fintype.card ι < 2 ^ 31) (reachable : program.Reachable (loaded ι) c) :
    c.shared = 1 - c.count Pc.Holds - c.count (· = Pc.failed) := by
  have residue := counter_residue reachable
  have range := counter_range reachable
  have bound : ∑ t, (c.task t).taken ≤ Fintype.card ι := by
    rw [← Finset.card_univ, Finset.card_eq_sum_ones]
    apply Finset.sum_le_sum
    intro t _
    cases c.task t <;> decide
  rw [sum_taken] at residue bound
  apply eq_of_residue _ range.1 range.2 (by omega) (by omega)
  rw [eq_sub_of_add_eq residue]
  push_cast
  rw [sub_sub]

theorem holders_le_one (few : Fintype.card ι < 2 ^ 31) (reachable : program.Reachable (loaded ι) c) :
    c.count Pc.Holds ≤ 1 := by
  refine reachable.invariant (I := fun c => c.count Pc.Holds ≤ 1) ?_ ?_
  · simp [Config.count, loaded, Pc.Holds]
  · intro c t s' x' n before bound stepped
    have exact := counter_exact few (before.step t stepped)
    have moved := count_after (P := program) (c := c) (p := Pc.Holds) (n := n) (fun _ => Iff.rfl) t s' x'
    -- only a decrement to zero makes a holder, and then the counts leave room for no other
    have kept : (x'.Holds → (c.task t).Holds) ∨ s' = 0 := by
      generalize c.task t = x at stepped
      cases stepped with
      | decrement zero => exact Or.inr (of_decide_eq_true zero)
      | _ => exact Or.inl (by decide)
    rw [after_shared] at exact
    rcases kept with kept | zero
    · split at moved <;> split at moved <;> first | omega | exact absurd (kept ‹_›) ‹_›
    · omega

-- nobody holds the device and no failed open has its decrement outstanding
def Quiet (c : Config Int Pc ι) : Prop := ∀ t, ¬ (c.task t).Holds ∧ c.task t ≠ .failed

omit [DecidableEq ι] in
theorem counts_of_quiet (quiet : Quiet c) : c.count Pc.Holds = 0 ∧ c.count (· = Pc.failed) = 0 :=
  ⟨count_eq_zero.mpr fun t => (quiet t).1, count_eq_zero.mpr fun t => (quiet t).2⟩

theorem quiet_step (few : Fintype.card ι < 2 ^ 31) (reachable : program.Reachable (loaded ι) c)
    (quiet : Quiet c) {t : ι} {s' : Int} {x' : Pc} {n : Unit}
    (stepped : program.step c.shared (c.task t) s' x' n) :
    x' = .opened ∨ Quiet (program.after c t s' x' n) := by
  have exact := counter_exact few reachable
  rw [(counts_of_quiet quiet).1, (counts_of_quiet quiet).2] at exact
  have same := quiet t
  have own : x' = .opened ∨ ¬ x'.Holds ∧ x' ≠ .failed := by
    generalize c.task t = x at stepped same
    cases stepped <;> simp_all [Pc.Holds, atomicDecAndTest, toInt32]
  rcases own with opened | calm
  · exact Or.inl opened
  · refine Or.inr fun u => ?_
    by_cases mine : u = t
    · subst u
      rw [after_same]
      exact calm
    · rw [after_other mine]
      exact quiet u

/-- The counter is one less the holders and the failed opens in flight, there is at most one
holder, and from a quiet configuration the next open that decrements succeeds. -/
theorem single_open (few : Fintype.card ι < 2 ^ 31) (reachable : program.Reachable (loaded ι) c) :
    c.shared = 1 - c.count Pc.Holds - c.count (· = Pc.failed) ∧ c.count Pc.Holds ≤ 1 ∧
      (Quiet c →
        (∀ t s' x' n, program.step c.shared (c.task t) s' x' n →
          x' = .opened ∨ Quiet (program.after c t s' x' n)) ∧
        ∀ t, c.task t = .opening → program.step c.shared (c.task t) 0 .opened ()) := by
  refine ⟨counter_exact few reachable, holders_le_one few reachable, ?_⟩
  intro quiet
  refine ⟨fun t s' x' n stepped => quiet_step few reachable quiet stepped, ?_⟩
  intro t opening
  have exact := counter_exact few reachable
  rw [(counts_of_quiet quiet).1, (counts_of_quiet quiet).2] at exact
  rw [opening, exact]
  exact Step.decrement 1 (by decide)

/-- Two tasks, the second of which has decremented while the first holds the device. -/
theorem single_open_contended :
    ∃ c : Config Int Pc (Fin 2), program.Reachable (loaded (Fin 2)) c ∧ c.shared = -1 ∧
      c.count Pc.Holds ≤ 1 := by
  have first : program.Reachable (loaded (Fin 2)) _ := Program.Reachable.init.step 0 (Step.sdevOpen 1)
  have second := first.step 0 (Step.decrement 1 (by decide))
  have third := second.step 1 (Step.sdevOpen 0)
  have fourth := third.step 1 (Step.decrementFails 0 (by decide))
  exact ⟨_, fourth, by decide, (single_open (by decide) fourth).2.1⟩

/-! ### Opens that fail -/

/-- Another task than `t` has the counter down: it holds the device, or its open has failed and not
yet restored the counter. -/
def Contended (t : ι) (c : Config Int Pc ι) : Prop :=
  ∃ u, u ≠ t ∧ ((c.task u).Holds ∨ c.task u = .failed)

theorem contended_of_decrement {t : ι} (reachable : program.Reachable (loaded ι) c)
    (opening : c.task t = .opening) (fails : (atomicDecAndTest c.shared).2 = false) :
    Contended t c := by
  by_contra alone
  have nobody : ∀ u, (c.task u).taken = 0 := by
    intro u
    by_cases mine : u = t
    · rw [mine, opening]
      rfl
    · have calm : ¬ (c.task u).Holds ∧ c.task u ≠ .failed :=
        not_or.mp fun taken => alone ⟨u, mine, taken⟩
      rw [Pc.taken, if_neg calm.1, if_neg calm.2]
  -- then the counter is 1 and the decrement would have given zero
  have residue := counter_residue reachable
  rw [Finset.sum_eq_zero fun u _ => nobody u, Nat.cast_zero, add_zero] at residue
  have range := counter_range reachable
  have one : c.shared = 1 := eq_of_residue (by simpa using residue) range.1 range.2 (by omega) (by omega)
  rw [one] at fails
  revert fails
  decide

theorem contended_in_stretch {t : ι} {seen : List (Config Int Pc ι)} {c' : Config Int Pc ι}
    (reachable : program.Reachable (loaded ι) c) (opening : c.task t = .opening)
    (stretch : program.Stretch c seen c') (failed : c'.task t = .failed ∨ c'.task t = .busy) :
    ∃ e ∈ seen, Contended t e := by
  induction stretch with
  | refl => rw [opening] at failed; exact absurd failed (by decide)
  | @step seen c' u s' x' n before stepped ih =>
    have earlier : (c'.task t = .failed ∨ c'.task t = .busy) →
        ∃ e ∈ seen ++ [program.after c' u s' x' n], Contended t e := by
      intro was
      obtain ⟨e, member, contended⟩ := ih was
      exact ⟨e, List.mem_append_left _ member, contended⟩
    by_cases mine : t = u
    · subst u
      rw [after_same] at failed
      generalize own : c'.task t = x at stepped earlier
      cases stepped with
      | decrementFails nonzero =>
        refine ⟨c', List.mem_append_left _ before.last_mem, ?_⟩
        exact contended_of_decrement (before.reachable reachable) own nonzero
      | restore => exact earlier (Or.inl rfl)
      | _ => exact absurd failed (by decide)
    · rw [after_other mine] at failed
      exact earlier failed

/-- An open that comes to return `-EBUSY` has, at some moment since its start, met a holder or a
failed open that had not yet restored the counter. The number of tasks is not bounded. -/
theorem busy_only_if_contended {t : ι} {seen : List (Config Int Pc ι)} {c' : Config Int Pc ι}
    (reachable : program.Reachable (loaded ι) c) (opening : c.task t = .opening)
    (stretch : program.Stretch c seen c') (busy : c'.task t = .busy) :
    ∃ e ∈ seen, ∃ u, u ≠ t ∧ ((e.task u).Holds ∨ e.task u = .failed) :=
  contended_in_stretch reachable opening stretch (Or.inr busy)

-- what the rest of a failing open does to the configuration
def failing (t : ι) (c : Config Int Pc ι) : Config Int Pc ι :=
  program.after c t (atomicDecAndTest c.shared).1 .failed ()

def restored (t : ι) (c : Config Int Pc ι) : Config Int Pc ι :=
  program.after c t (atomicInc c.shared) .busy ()

omit [Fintype ι] in
theorem failing_open_stretch {t : ι} (opening : c.task t = .opening)
    (fails : (atomicDecAndTest c.shared).2 = false) :
    program.Stretch c [c, failing t c, restored t (failing t c)] (restored t (failing t c)) := by
  refine (Program.Stretch.refl.step t ?_).step t ?_
  · rw [opening]
    exact Step.decrementFails _ fails
  · rw [after_same]
    exact Step.restore _

/-- Task 1 fails to open the device that task 0 holds. -/
theorem busy_while_held :
    ∃ (c c' : Config Int Pc (Fin 2)) (seen : List (Config Int Pc (Fin 2))),
      program.Reachable (loaded (Fin 2)) c ∧ program.Stretch c seen c' ∧ c'.task 1 = .busy ∧
      ∃ e ∈ seen, ∃ u, u ≠ 1 ∧ ((e.task u).Holds ∨ e.task u = .failed) := by
  have held : program.Reachable (loaded (Fin 2)) _ :=
    (Program.Reachable.init.step 0 (Step.sdevOpen _)).step 0 (Step.decrement _ (by decide))
  have opening := held.step 1 (Step.sdevOpen _)
  refine ⟨_, _, _, opening, failing_open_stretch (t := 1) (by rfl) (by decide), rfl, ?_⟩
  exact busy_only_if_contended opening rfl (failing_open_stretch (by rfl) (by decide)) rfl

/-- Task 0 has closed the device before task 2 calls `sdev_open`, but the failed open of task 1 has
not yet restored the counter: task 2 gets `-EBUSY` though nobody holds the device at any moment of
its call. -/
theorem busy_while_nobody_holds :
    ∃ (c c' : Config Int Pc (Fin 3)) (seen : List (Config Int Pc (Fin 3))),
      program.Reachable (loaded (Fin 3)) c ∧ program.Stretch c seen c' ∧
      seen.map (fun e => e.task 2) = [.opening, .failed, .busy] ∧
      ∀ e ∈ seen, ∀ u, ¬ (e.task u).Holds := by
  have held : program.Reachable (loaded (Fin 3)) _ :=
    (Program.Reachable.init.step 0 (Step.sdevOpen _)).step 0 (Step.decrement _ (by decide))
  have failed := (held.step 1 (Step.sdevOpen _)).step 1 (Step.decrementFails _ (by decide))
  have closed := ((failed.step 0 (Step.returnOk _)).step 0 (Step.sdevClose _)).step 0 (Step.increment _)
  have opening := closed.step 2 (Step.sdevOpen _)
  exact ⟨_, _, _, opening, failing_open_stretch (t := 2) (by rfl) (by decide), by decide, by decide⟩

end Ldd3.Access.SingleOpen
