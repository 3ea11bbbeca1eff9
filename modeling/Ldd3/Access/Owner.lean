import Ldd3.Base.Tasks
import Ldd3.Base.Words
import Mathlib.Algebra.BigOperators.Ring.Finset

/-!
The device of `access/scullb.c`, which one user at a time may hold open: `sdev_available`,
`sdev_open` and `sdev_close`. A task is one open file from its `open` to its `close`. The calls
are cut where another task can see a difference; what a task does to `user_count` and `user_owner`
it does under `sdev.spin`.

Of `wait_event_interruptible` the model has the test before it, `prepare_to_wait`, which enqueues
the task and marks it sleeping, the test after that, the look for a pending signal, and `schedule`,
which returns once the task is no longer marked. `wake_up_interruptible` takes the mark from every
task on the queue, and a signal takes it from the task it is sent to.
-/

namespace Ldd3.Access.Owner

open Base.Tasks Base.Words

structure Creds where
  uid : UInt32
  euid : UInt32
  /-- `capable(CAP_DAC_OVERRIDE)` -/
  cap : Bool

/-- `opener` is not in the source: it records who took `user_count` from 0 to 1. -/
structure Dev where
  userCount : Int
  userOwner : Int
  spin : Bool
  opener : Option Creds

/-- `user_owner == uid`, where the `int` converts to `unsigned`. -/
def isUid (owner : Int) (uid : UInt32) : Bool := owner % 2 ^ 32 == uid.toNat

def sdevAvailable (d : Dev) (k : Creds) : Bool :=
  !(d.userCount != 0 && !k.cap && !isUid d.userOwner k.uid && !isUid d.userOwner k.euid)

structure Call where
  creds : Creds
  nonblock : Bool

inductive Wait where
  | retest | pending | schedule

inductive Pc where
  | idle
  | lock (k : Call) | test (k : Call) | unlock (k : Call) | flags (k : Call)
  | pretest (k : Call) | prepare (k : Call) | waiting (k : Call) (marked : Bool) (w : Wait)
  | owner (k : Call) | count (k : Call) | release (k : Call)
  | opened (k : Call) | failed (e : Errno)
  | closing (k : Call) | decrement (k : Call) | closed (tmp : Int) | wake (tmp : Int)

inductive Notice where
  | none | wakeUp

def Pc.notify : Notice → Pc → Pc
  | .wakeUp, .waiting k _ w => .waiting k false w
  | _, x => x

def assignOwner (d : Dev) (k : Creds) : Dev :=
  if d.userCount = 0 then { d with userOwner := toInt32 k.uid.toNat } else d

def increment (d : Dev) (k : Creds) : Dev :=
  { d with
    userCount := toInt32 (d.userCount + 1)
    opener := if d.userCount = 0 then some k else d.opener }

def decrement (d : Dev) : Dev := { d with userCount := toInt32 (d.userCount - 1) }

inductive PcStep : Dev → Pc → Dev → Pc → Notice → Prop where
  | sdevOpen (d k) : PcStep d .idle d (.lock k) .none
  | spinLock (d k) (free : d.spin = false) : PcStep d (.lock k) { d with spin := true } (.test k) .none
  | available (d k) (yes : sdevAvailable d k.creds = true) : PcStep d (.test k) d (.owner k) .none
  | unavailable (d k) (no : sdevAvailable d k.creds = false) : PcStep d (.test k) d (.unlock k) .none
  | spinUnlock (d k) : PcStep d (.unlock k) { d with spin := false } (.flags k) .none
  | nonblock (d k) (set : k.nonblock = true) : PcStep d (.flags k) d (.failed .EAGAIN) .none
  | blocking (d k) (clear : k.nonblock = false) : PcStep d (.flags k) d (.pretest k) .none
  | pretestHolds (d k) (yes : sdevAvailable d k.creds = true) : PcStep d (.pretest k) d (.lock k) .none
  | pretestFails (d k) (no : sdevAvailable d k.creds = false) : PcStep d (.pretest k) d (.prepare k) .none
  | prepareToWait (d k) : PcStep d (.prepare k) d (.waiting k true .retest) .none
  | retestHolds (d k m) (yes : sdevAvailable d k.creds = true) :
      PcStep d (.waiting k m .retest) d (.lock k) .none
  | retestFails (d k m) (no : sdevAvailable d k.creds = false) :
      PcStep d (.waiting k m .retest) d (.waiting k m .pending) .none
  | signalPending (d k m) : PcStep d (.waiting k m .pending) d (.failed .ERESTARTSYS) .none
  | noSignal (d k m) : PcStep d (.waiting k m .pending) d (.waiting k m .schedule) .none
  | signal (d k m w) : PcStep d (.waiting k m w) d (.waiting k false w) .none
  | resume (d k) : PcStep d (.waiting k false .schedule) d (.prepare k) .none
  | assignOwner (d k) : PcStep d (.owner k) (assignOwner d k.creds) (.count k) .none
  | increment (d k) : PcStep d (.count k) (increment d k.creds) (.release k) .none
  | unlockOpened (d k) : PcStep d (.release k) { d with spin := false } (.opened k) .none
  | returnError (d e) : PcStep d (.failed e) d .idle .none
  | sdevClose (d k) : PcStep d (.opened k) d (.closing k) .none
  | lockClosing (d k) (free : d.spin = false) :
      PcStep d (.closing k) { d with spin := true } (.decrement k) .none
  | decrement (d k) :
      PcStep d (.decrement k) (decrement d) (.closed (decrement d).userCount) .none
  | unlockClosed (d tmp) : PcStep d (.closed tmp) { d with spin := false } (.wake tmp) .none
  | wakeUp (d) : PcStep d (.wake 0) d .idle .wakeUp
  | noWakeUp (d tmp) (nonzero : tmp ≠ 0) : PcStep d (.wake tmp) d .idle .none

/-- `wrote` is not in the source: it says whether the running call has changed `user_count` or
`user_owner`. -/
structure Task where
  pc : Pc
  wrote : Bool

def Pc.between : Pc → Bool
  | .idle | .opened _ => true
  | _ => false

def changed (d d' : Dev) : Bool := d'.userCount != d.userCount || d'.userOwner != d.userOwner

inductive Step : Dev → Task → Dev → Task → Notice → Prop where
  | mk {d x d' pc' n} (stepped : PcStep d x.pc d' pc' n) :
      Step d x d' ⟨pc', (!x.pc.between && x.wrote) || changed d d'⟩ n

def program : Program Dev Task Notice := ⟨Step, fun n x => { x with pc := x.pc.notify n }⟩

def Dev.loaded : Dev := ⟨0, -1, false, none⟩

def loaded (ι : Type*) : Config Dev Task ι := ⟨.loaded, fun _ => ⟨.idle, false⟩⟩

/-- The credentials of an open that has been counted and not yet uncounted. -/
def Pc.file : Pc → Option Creds
  | .release k | .opened k | .closing k | .decrement k => some k.creds
  | _ => none

def Task.Open (x : Task) : Prop := x.pc.file.isSome = true

instance : DecidablePred Task.Open := fun _ => inferInstanceAs (Decidable (_ = true))

@[simp] theorem file_notify (n : Notice) (x : Pc) : (x.notify n).file = x.file := by
  cases n <;> cases x <;> rfl

theorem open_notify (n : Notice) (x : Task) : (program.notify n x).Open ↔ x.Open := by
  simp [program, Task.Open]

/-! ### The lock -/

def Pc.Holds : Pc → Prop
  | .test _ | .unlock _ | .owner _ | .count _ | .release _ | .decrement _ | .closed _ => True
  | _ => False

theorem holds_notify (n : Notice) (x : Pc) : (x.notify n).Holds ↔ x.Holds := by
  cases n <;> cases x <;> rfl

theorem step_locking {d d' : Dev} {x x' : Pc} {n : Notice} (stepped : PcStep d x d' x' n) :
    (d.spin = false ∧ ¬ d'.spin = false ∧ x'.Holds) ∨ (x.Holds ∧ ¬ x'.Holds) ∨
      ((d'.spin = false → d.spin = false) ∧ (x'.Holds → x.Holds)) := by
  cases stepped with
  | spinLock _ free => exact Or.inl ⟨free, by simp, trivial⟩
  | lockClosing _ free => exact Or.inl ⟨free, by simp, trivial⟩
  | spinUnlock => exact Or.inr (Or.inl ⟨trivial, id⟩)
  | unlockOpened => exact Or.inr (Or.inl ⟨trivial, id⟩)
  | unlockClosed => exact Or.inr (Or.inl ⟨trivial, id⟩)
  | assignOwner k =>
    refine Or.inr (Or.inr ⟨?_, fun _ => trivial⟩)
    unfold assignOwner
    split <;> exact id
  | _ => exact Or.inr (Or.inr ⟨id, id⟩)

/-- What a step does to the two variables, and from where. -/
theorem step_effect {d d' : Dev} {x x' : Pc} {n : Notice} (stepped : PcStep d x d' x' n) :
    (d'.userCount = d.userCount ∧ d'.userOwner = d.userOwner ∧ d'.opener = d.opener) ∨
    (∃ k, x = .owner k ∧ x' = .count k ∧ d.userCount = 0 ∧ d' = assignOwner d k.creds) ∨
    (∃ k, x = .count k ∧ x' = .release k ∧ d' = increment d k.creds) ∨
    (∃ k, x = .decrement k ∧ x' = .closed (decrement d).userCount ∧ d' = decrement d) := by
  cases stepped with
  | assignOwner k =>
    by_cases zero : d.userCount = 0
    · exact Or.inr (Or.inl ⟨k, rfl, rfl, zero, rfl⟩)
    · exact Or.inl (by simp [assignOwner, zero])
  | increment k => exact Or.inr (Or.inr (Or.inl ⟨k, rfl, rfl, rfl⟩))
  | decrement k => exact Or.inr (Or.inr (Or.inr ⟨k, rfl, rfl, rfl⟩))
  | _ => exact Or.inl ⟨rfl, rfl, rfl⟩

variable {ι : Type*} [DecidableEq ι] {c : Config Dev Task ι}

theorem spin_exclusive (reachable : program.Reachable (loaded ι) c) {t u : ι}
    (mine : (c.task t).pc.Holds) (yours : (c.task u).pc.Holds) : u = t := by
  refine (reachable.exclusive (fun d => d.spin = false) (fun x => x.pc.Holds) ?_ ?_ ?_ mine).2 u yours
  · intro t held
    exact held
  · intro d x d' x' n stepped
    cases stepped with
    | mk stepped => exact step_locking stepped
  · intro n x
    exact holds_notify n x.pc

/-! ### The count -/

theorem step_residue {d d' : Dev} {x x' : Pc} {n : Notice} (stepped : PcStep d x d' x' n) :
    (d'.userCount : ZMod (2 ^ 32)) + (if x'.file.isSome = true then -1 else 0) =
      d.userCount + if x.file.isSome = true then -1 else 0 := by
  have more : ((toInt32 (d.userCount + 1) : Int) : ZMod (2 ^ 32)) = d.userCount + 1 := by
    rw [toInt32_residue, Int.cast_add, Int.cast_one]
  have fewer : ((toInt32 (d.userCount - 1) : Int) : ZMod (2 ^ 32)) = d.userCount - 1 := by
    rw [toInt32_residue, Int.cast_sub, Int.cast_one]
  cases stepped with
  | assignOwner k =>
    unfold assignOwner
    split <;> rfl
  | increment k =>
    rw [increment, more, if_pos (show (Pc.release k).file.isSome = true from rfl),
      if_neg (show ¬ (Pc.count k).file.isSome = true from Bool.false_ne_true), add_neg_cancel_right, add_zero]
  | decrement k =>
    rw [decrement, fewer, if_pos (show (Pc.decrement k).file.isSome = true from rfl),
      if_neg (show ¬ (Pc.closed _).file.isSome = true from Bool.false_ne_true), add_zero, sub_eq_add_neg]
  | _ => rfl

theorem userCount_range (reachable : program.Reachable (loaded ι) c) :
    -2 ^ 31 ≤ c.shared.userCount ∧ c.shared.userCount < 2 ^ 31 := by
  refine reachable.shared_invariant (I := fun d : Dev => -2 ^ 31 ≤ d.userCount ∧ d.userCount < 2 ^ 31) ?_ ?_
  · exact (by decide : -2 ^ 31 ≤ Dev.loaded.userCount ∧ Dev.loaded.userCount < 2 ^ 31)
  · intro d x d' x' n before stepped
    cases stepped with
    | mk stepped =>
      rcases step_effect stepped with ⟨same, _⟩ | ⟨k, _, _, zero, rfl⟩ | ⟨k, _, _, rfl⟩ | ⟨k, _, _, rfl⟩
      · rw [same]
        exact before
      · simp [assignOwner, zero]
      · exact toInt32_range _
      · exact toInt32_range _

variable [Fintype ι]

theorem userCount_residue (reachable : program.Reachable (loaded ι) c) :
    (c.shared.userCount : ZMod (2 ^ 32)) = (c.count Task.Open : Nat) := by
  have conserved := reachable.conserved (fun d : Dev => (d.userCount : ZMod (2 ^ 32)))
    (fun x : Task => if x.Open then (-1 : ZMod (2 ^ 32)) else 0)
    (fun d x d' x' n stepped => by cases stepped with | mk stepped => exact step_residue stepped)
    (fun n x => if_congr (open_notify n x) rfl rfl)
  have opens : ∑ t, (if (c.task t).Open then (-1 : ZMod (2 ^ 32)) else 0) = -((c.count Task.Open : Nat)) := by
    rw [count_eq_sum, Nat.cast_sum, ← Finset.sum_neg_distrib]
    apply Finset.sum_congr rfl
    intro t _
    split <;> simp
  rw [opens] at conserved
  simpa [loaded, Dev.loaded, Task.Open, Pc.file, add_neg_eq_zero] using conserved

theorem userCount_exact (few : Fintype.card ι < 2 ^ 31) (reachable : program.Reachable (loaded ι) c) :
    c.shared.userCount = c.count Task.Open := by
  have range := userCount_range reachable
  have bound : c.count Task.Open ≤ Fintype.card ι := count_le_card _
  apply eq_of_residue _ range.1 range.2 (by omega) (by omega)
  rw [userCount_residue reachable, Int.cast_natCast]

/-! ### The owner -/

def Permits (owner : Int) (k : Creds) : Prop :=
  k.cap = true ∨ isUid owner k.uid = true ∨ isUid owner k.euid = true

theorem sdevAvailable_iff (d : Dev) (k : Creds) :
    sdevAvailable d k = true ↔ d.userCount = 0 ∨ Permits d.userOwner k := by
  unfold sdevAvailable Permits
  by_cases zero : d.userCount = 0
  · simp [zero]
  · cases k.cap <;> cases isUid d.userOwner k.uid <;> cases isUid d.userOwner k.euid <;> simp [zero]

theorem isUid_toInt32 (a b : UInt32) : isUid (toInt32 a.toNat) b = true ↔ a = b := by
  have residue : toInt32 a.toNat % 2 ^ 32 = a.toNat := by
    rw [toInt32_emod]
    exact Int.emod_eq_of_lt (Int.natCast_nonneg _) (by exact_mod_cast a.toNat_lt)
  rw [isUid, residue, beq_iff_eq, Int.natCast_inj, UInt32.toNat_inj]

/-- What a task past the availability test may rely on. -/
def Admitted (d : Dev) : Pc → Prop
  | .owner k => d.userCount = 0 ∨ Permits d.userOwner k.creds
  | .count k => Permits d.userOwner k.creds ∧ (d.userCount = 0 → isUid d.userOwner k.creds.uid = true)
  | x => ∀ k, x.file = some k → Permits d.userOwner k

theorem admitted_step {d d' : Dev} {x x' : Pc} {n : Notice} (before : Admitted d x)
    (stepped : PcStep d x d' x' n) : Admitted d' x' := by
  cases stepped with
  | available k yes => exact (sdevAvailable_iff d k.creds).mp yes
  | assignOwner k =>
    have tested : d.userCount = 0 ∨ Permits d.userOwner k.creds := before
    by_cases zero : d.userCount = 0
    · have own : isUid (assignOwner d k.creds).userOwner k.creds.uid = true := by
        simp only [assignOwner, zero, if_true, isUid_toInt32]
      exact ⟨Or.inr (Or.inl own), fun _ => own⟩
    · have same : assignOwner d k.creds = d := if_neg zero
      rw [same]
      exact ⟨tested.resolve_left zero, fun eq => absurd eq zero⟩
  | increment k => exact fun _ same => Option.some.inj same ▸ before.1
  | unlockOpened k => exact before
  | sdevClose k => exact before
  | lockClosing k => exact before
  | _ => intro _ none; cases none

omit [DecidableEq ι] [Fintype ι] in
theorem admitted_of_same {d d' : Dev} {x : Pc} {n : Notice} (count : d'.userCount = d.userCount)
    (owner : d'.userOwner = d.userOwner) (before : Admitted d x) : Admitted d' (x.notify n) := by
  cases n <;> cases x <;> simp_all [Admitted, Pc.notify, Pc.file]

/-- Without the lock, what a task relies on is the owner alone, and only while it is counted. -/
theorem admitted_of_free {d : Dev} {x : Pc} {n : Notice} (free : ¬ x.Holds)
    (counted : ∀ k, x.file = some k → Permits d.userOwner k) : Admitted d (x.notify n) := by
  cases n <;> cases x <;> first | exact counted | exact absurd trivial free

theorem nobody_open (few : Fintype.card ι < 2 ^ 31) (reachable : program.Reachable (loaded ι) c)
    (zero : c.shared.userCount = 0) (t : ι) : (c.task t).pc.file = none := by
  have exact := userCount_exact few reachable
  have none : c.count Task.Open = 0 := by omega
  have closed := count_eq_zero.mp none t
  simpa [Task.Open] using closed

theorem admitted (few : Fintype.card ι < 2 ^ 31) (reachable : program.Reachable (loaded ι) c) (t : ι) :
    Admitted c.shared (c.task t).pc := by
  refine reachable.local_invariant (A := fun d x => Admitted d x.pc) ?_ ?_ ?_ t
  · intro t k none
    cases none
  · intro c t d' x' n _ before stepped
    cases stepped with
    | mk stepped => exact admitted_step before stepped
  · intro c t u s' x' n reachable other mine yours stepped
    cases stepped with
    | mk stepped =>
      -- a step that changes a variable holds the lock, so `u` is not between its test and its count
      have free : (c.task t).pc.Holds → ¬ (c.task u).pc.Holds := fun held heldU =>
        other (spin_exclusive reachable held heldU)
      have counted : ∀ k, (c.task u).pc.file = some k → Permits c.shared.userOwner k := by
        intro k file
        generalize (c.task u).pc = x at file yours
        cases x <;> first | exact yours k file | cases file
      rcases step_effect stepped with ⟨count, owner, _⟩ | ⟨k, at', _, zero, rfl⟩ | ⟨k, at', _, rfl⟩ |
        ⟨k, at', _, rfl⟩
      · exact admitted_of_same count owner yours
      · refine admitted_of_free (free (by rw [at']; trivial)) ?_
        intro k' file
        rw [nobody_open few reachable zero u] at file
        cases file
      · exact admitted_of_free (free (by rw [at']; trivial)) counted
      · exact admitted_of_free (free (by rw [at']; trivial)) counted

theorem owner_opened (few : Fintype.card ι < 2 ^ 31) (reachable : program.Reachable (loaded ι) c)
    (positive : c.shared.userCount ≠ 0) :
    ∃ k, c.shared.opener = some k ∧ isUid c.shared.userOwner k.uid = true := by
  refine reachable.invariant (I := fun c => c.shared.userCount ≠ 0 →
    ∃ k, c.shared.opener = some k ∧ isUid c.shared.userOwner k.uid = true) ?_ ?_ positive
  · intro nonzero
    exact absurd rfl nonzero
  · intro c t s' x' n reachable before stepped nonzero
    have mine := admitted few reachable t
    cases stepped with
    | mk stepped =>
      rw [after_shared] at nonzero ⊢
      rcases step_effect stepped with ⟨count, owner, opener⟩ | ⟨k, _, _, zero, rfl⟩ | ⟨k, at', _, rfl⟩ |
        ⟨k, at', _, rfl⟩
      · rw [owner, opener]
        exact before (count ▸ nonzero)
      · exact absurd (by simp [assignOwner, zero]) nonzero
      · rw [at'] at mine
        by_cases zero : c.shared.userCount = 0
        · exact ⟨k.creds, if_pos zero, mine.2 zero⟩
        · obtain ⟨k', opener, owner⟩ := before zero
          exact ⟨k', (if_neg zero).trans opener, owner⟩
      · refine before fun zero => ?_
        have file := nobody_open few reachable zero t
        rw [at'] at file
        cases file

/-! ### Failed opens -/

/-- Where a call that has changed a variable can be. -/
def Pc.Committed : Pc → Prop
  | .count _ | .release _ | .opened _ | .closed _ | .wake _ | .idle => True
  | _ => False

omit [Fintype ι] in
theorem committed_of_wrote (reachable : program.Reachable (loaded ι) c) (t : ι)
    (wrote : (c.task t).wrote = true) : (c.task t).pc.Committed := by
  refine reachable.local_invariant (A := fun _ x => x.wrote = true → x.pc.Committed) ?_ ?_ ?_ t wrote
  · intro t _
    trivial
  · intro c t d' x' n _ before stepped wrote
    generalize c.task t = x at before stepped
    cases stepped with
    | mk stepped =>
      obtain ⟨pc, written⟩ := x
      simp only [Bool.or_eq_true, Bool.and_eq_true, Bool.not_eq_true'] at wrote before
      rcases step_effect stepped with ⟨count, owner, _⟩ | ⟨k, _, rfl, _⟩ | ⟨k, _, rfl, _⟩ | ⟨k, _, rfl, _⟩
      · simp only [changed, count, owner, bne_self_eq_false, Bool.or_self, Bool.false_eq_true, or_false] at wrote
        have earlier := before wrote.2
        cases stepped <;> first | trivial | exact earlier | cases wrote.1
      · trivial
      · trivial
      · trivial
  · intro c t u s' x' n _ _ _ yours _ wrote
    have earlier := yours wrote
    show ((c.task u).pc.notify n).Committed
    generalize (c.task u).pc = x at earlier
    cases n <;> cases x <;> trivial

/-! ### Exclusivity -/

/-- As long as fewer than `2 ^ 31` files exist, `user_count` is the number of open files; while it
is positive the owner is the user whose open took it from 0 to 1, and every open file is one that
this owner or `CAP_DAC_OVERRIDE` permits. A failed open has changed neither variable. -/
theorem user_exclusive (few : Fintype.card ι < 2 ^ 31) (reachable : program.Reachable (loaded ι) c) :
    c.shared.userCount = c.count Task.Open ∧
    (0 < c.shared.userCount →
      (∃ k, c.shared.opener = some k ∧ isUid c.shared.userOwner k.uid = true) ∧
      ∀ t k, (c.task t).pc.file = some k →
        k.cap = true ∨ isUid c.shared.userOwner k.uid = true ∨ isUid c.shared.userOwner k.euid = true) ∧
    ∀ t e, (c.task t).pc = .failed e → (c.task t).wrote = false := by
  refine ⟨userCount_exact few reachable, fun positive => ⟨owner_opened few reachable (by omega), ?_⟩, ?_⟩
  · intro t k file
    have mine := admitted few reachable t
    generalize (c.task t).pc = x at file mine
    cases x <;> first | exact mine k file | cases file
  · intro t e failed
    have committed := committed_of_wrote reachable t
    rw [failed] at committed
    exact Bool.eq_false_iff.mpr committed

theorem notify_none (x : Task) : program.notify .none x = x := rfl

theorem start_reachable (ι : Type*) [DecidableEq ι] : program.Reachable (loaded ι) (loaded ι) := .init

def grant (d : Dev) (k : Creds) : Dev := { increment (assignOwner { d with spin := true } k) k with spin := false }

theorem open_alone {d : Dev} (free : d.spin = false) {k : Call} (available : sdevAvailable d k.creds = true)
    (wrote : Bool) : ∃ wrote', program.Solo d ⟨.idle, wrote⟩ (grant d k.creds) ⟨.opened k, wrote'⟩ :=
  ⟨_, .step _ (.mk (.sdevOpen d k)) notify_none <|
    .step _ (.mk (.spinLock d k free)) notify_none <|
    .step _ (.mk (.available _ k available)) notify_none <|
    .step _ (.mk (.assignOwner _ k)) notify_none <|
    .step _ (.mk (.increment _ k)) notify_none <|
    .step _ (.mk (.unlockOpened _ k)) notify_none <| .refl _ _⟩

def root : Call := ⟨⟨0, 0, true⟩, false⟩

theorem root_available (d : Dev) : sdevAvailable d root.creds = true :=
  (sdevAvailable_iff d root.creds).mpr (Or.inr (Or.inl rfl))

omit [Fintype ι] in
theorem open_all (reachable : program.Reachable (loaded ι) c) (free : c.shared.spin = false) (files : Finset ι)
    (idle : ∀ t ∈ files, (c.task t).pc = .idle) :
    ∃ c', program.Reachable (loaded ι) c' ∧ c'.shared.spin = false ∧
      (∀ t ∈ files, (c'.task t).pc = .opened root) ∧ ∀ t, t ∉ files → c'.task t = c.task t := by
  induction files using Finset.induction_on with
  | empty => exact ⟨c, reachable, free, by simp, fun _ _ => rfl⟩
  | insert t files fresh ih =>
    obtain ⟨c₁, reached, free₁, opened, same⟩ := ih fun u member => idle u (Finset.mem_insert_of_mem member)
    obtain ⟨wrote', alone⟩ := open_alone free₁ (root_available c₁.shared) (c₁.task t).wrote
    have start : c₁.task t = ⟨.idle, (c₁.task t).wrote⟩ := by
      rw [← idle t (Finset.mem_insert_self _ _), same t fresh]
    rw [← start] at alone
    obtain ⟨c₂, reached₂, shared, own, others⟩ := reached.solo t alone
    refine ⟨c₂, reached₂, by rw [shared]; rfl, ?_, ?_⟩
    · intro u member
      rcases Finset.mem_insert.mp member with rfl | member
      · rw [own]
      · rw [others u fun eq => fresh (eq ▸ member)]
        exact opened u member
    · intro u outside
      have apart : u ≠ t ∧ u ∉ files := by simpa [not_or] using outside
      rw [others u apart.1, same u apart.2]

def userFive : Call := ⟨⟨5, 5, false⟩, false⟩

def userSix : Call := ⟨⟨6, 6, false⟩, true⟩

theorem refuse_alone {d : Dev} (free : d.spin = false) {k : Call} (no : sdevAvailable d k.creds = false)
    (set : k.nonblock = true) (wrote : Bool) :
    ∃ wrote', program.Solo d ⟨.idle, wrote⟩ { d with spin := false } ⟨.failed .EAGAIN, wrote'⟩ :=
  ⟨_, .step _ (.mk (.sdevOpen d k)) notify_none <|
    .step _ (.mk (.spinLock d k free)) notify_none <|
    .step _ (.mk (.unavailable _ k no)) notify_none <|
    .step _ (.mk (.spinUnlock _ k)) notify_none <|
    .step _ (.mk (.nonblock _ k set)) notify_none <| .refl _ _⟩

/-- User 5 and then root have the device open, and a non-blocking open of user 6 has failed. -/
theorem user_exclusive_three_users :
    ∃ c : Config Dev Task (Fin 3), program.Reachable (loaded (Fin 3)) c ∧ c.shared.userCount = 2 ∧
      c.count Task.Open = 2 ∧ isUid c.shared.userOwner 5 = true ∧ (c.task 2).pc = .failed .EAGAIN ∧
      (c.task 2).wrote = false := by
  obtain ⟨_, first⟩ := open_alone (d := .loaded) (k := userFive) rfl (by decide) false
  obtain ⟨c₁, reached₁, shared₁, _, same₁⟩ := (start_reachable (Fin 3)).solo 0 first
  obtain ⟨_, second⟩ := open_alone (d := c₁.shared) (by rw [shared₁]; rfl) (root_available _) false
  have start₁ : c₁.task 1 = ⟨.idle, false⟩ := same₁ 1 (by decide)
  obtain ⟨c₂, reached₂, shared₂, _, same₂⟩ := reached₁.solo 1 (start₁ ▸ second)
  obtain ⟨_, third⟩ := refuse_alone (d := c₂.shared) (k := userSix) (by rw [shared₂]; rfl)
    (by rw [shared₂, shared₁]; decide) rfl false
  have start₂ : c₂.task 2 = ⟨.idle, false⟩ := (same₂ 2 (by decide)).trans (same₁ 2 (by decide))
  obtain ⟨c₃, reached₃, shared₃, own₃, _⟩ := reached₂.solo 2 (start₂ ▸ third)
  obtain ⟨count, owner, failed⟩ := user_exclusive (by decide) reached₃
  have two : c₃.shared.userCount = 2 := by rw [shared₃, shared₂, shared₁]; decide
  have opener : c₃.shared.opener = some userFive.creds := by rw [shared₃, shared₂, shared₁]; rfl
  obtain ⟨⟨k, same, uid⟩, _⟩ := owner (by omega)
  have refused : (c₃.task 2).pc = .failed .EAGAIN := by rw [own₃]
  refine ⟨c₃, reached₃, two, by omega, ?_, refused, failed 2 .EAGAIN refused⟩
  rw [opener] at same
  cases same
  exact uid

/-- With `2 ^ 31` files open the `int` has wrapped to a negative number. -/
theorem userCount_wraps :
    ∃ c : Config Dev Task (Fin (2 ^ 31)), program.Reachable (loaded (Fin (2 ^ 31))) c ∧
      c.shared.userCount ≠ c.count Task.Open := by
  obtain ⟨c, reachable, _, opened, _⟩ := open_all (ι := Fin (2 ^ 31)) .init rfl Finset.univ fun _ _ => rfl
  refine ⟨c, reachable, ?_⟩
  have range := userCount_range reachable
  have all : c.count Task.Open = 2 ^ 31 := by
    have every : (Finset.univ.filter fun t => (c.task t).Open) = Finset.univ := by
      apply Finset.filter_true_of_mem
      intro t member
      rw [Task.Open, opened t member]
      rfl
    rw [Config.count, every, Finset.card_univ, Fintype.card_fin]
  rw [all]
  exact fun same => absurd range.2 (by rw [same]; decide)

end Ldd3.Access.Owner
