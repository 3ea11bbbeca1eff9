import Mathlib.Data.Nat.Digits.Defs
import Mathlib.Logic.Relation
import Ldd3.Base.Words

/-!
The callback `sdev_timer` that the proc files of `timer.c`, `tasklet.c`, `workqueue.c` and
`timer-old.c` share. A run of it writes one line through `buf`, counts `loops` down, and either arms
itself again or wakes the reader. The four files differ in what arms it and in who may run beside
it, so the runs are cut into the steps that others can come between.
-/

namespace Ldd3.Time

open Base.Words

def LOOPS : Int := 10

/-- A pointer into the proc page of one read. -/
structure Ptr (ι : Type*) where
  page : ι
  off : Nat
  deriving DecidableEq

structure Sdevdata (ι : Type*) where
  prejif : Nat
  buf : Ptr ι
  loops : Int

/-! ### The line -/

/-- What a line tells about where the callback runs. -/
structure Context where
  inInterrupt : Bool
  pid : Int
  cpu : Int
  comm : List Char
  pid_int : -2 ^ 31 ≤ pid ∧ pid < 2 ^ 31
  cpu_int : -2 ^ 31 ≤ cpu ∧ cpu < 2 ^ 31
  comm_len : comm.length < 16

def decimal (z : Int) : List Char :=
  if z < 0 then '-' :: Nat.toDigits 10 z.natAbs else Nat.toDigits 10 z.natAbs

def line (j prejif : Nat) (on : Context) : List Char :=
  (decimal (toInt64 j)).leftpad 9 ' ' ++ [' ', ' '] ++ (decimal (toInt64 (j - prejif))).leftpad 3 ' ' ++
    [' ', ' '] ++ decimal (if on.inInterrupt then 1 else 0) ++ [' ', ' '] ++
    (decimal on.pid).leftpad 6 ' ' ++ [' '] ++ decimal on.cpu ++ [' '] ++ on.comm ++ ['\n']

theorem length_decimal {z : Int} {k : Nat} (positive : 0 < k) (small : z.natAbs < 10 ^ k) :
    (decimal z).length ≤ k + 1 := by
  have digits : (Nat.toDigits 10 z.natAbs).length ≤ k :=
    Nat.toDigitsCore_length 10 _ _ k positive small
  unfold decimal
  split
  · exact Nat.succ_le_succ digits
  · exact Nat.le_succ_of_le digits

theorem length_decimal_int {z : Int} (range : -2 ^ 31 ≤ z ∧ z < 2 ^ 31) : (decimal z).length ≤ 11 :=
  length_decimal (k := 10) (by decide) (by omega)

theorem length_decimal_long (z : Int) : (decimal (toInt64 z)).length ≤ 20 := by
  have low : -2 ^ 63 ≤ toInt64 z := Int.le_bmod (x := z) (m := 2 ^ 64) (by decide)
  have high : toInt64 z < 2 ^ 63 := Int.bmod_lt (x := z) (m := 2 ^ 64) (by decide)
  exact length_decimal (k := 19) (by decide) (by omega)

theorem length_line (j prejif : Nat) (on : Context) : (line j prejif on).length ≤ 99 := by
  have now := length_decimal_long j
  have since := length_decimal_long (j - prejif)
  have context : (decimal (if on.inInterrupt then 1 else 0)).length ≤ 11 :=
    length_decimal_int (by split <;> decide)
  have pid := length_decimal_int on.pid_int
  have cpu := length_decimal_int on.cpu_int
  have comm := on.comm_len
  simp only [line, List.length_append, List.length_cons, List.length_nil, List.leftpad,
    List.length_replicate]
  omega

/-! ### One run of the callback -/

/-- Where a run is: waiting for its expiry, or before it writes its line, counts down, arms itself
again, or wakes the reader. `j` is the `jiffies` it started with. -/
inductive Stage where
  | pending
  | writing (j : Nat)
  | counting (j : Nat)
  | rearming (j : Nat)
  | waking
  deriving DecidableEq

structure Write (ι : Type*) where
  place : Ptr ι
  text : List Char

/-- A step of the callback, with the line it writes if it writes one and the stage it goes to. -/
inductive Callback {ι : Type*} :
    Sdevdata ι → Stage → Option (Write ι) → Sdevdata ι → Option Stage → Prop where
  | fire (d : Sdevdata ι) (j : Nat) : Callback d .pending none d (some (.writing j))
  | write (d : Sdevdata ι) (j : Nat) (on : Context) :
      Callback d (.writing j) (some ⟨d.buf, line j d.prejif on⟩)
        { d with buf := ⟨d.buf.page, d.buf.off + (line j d.prejif on).length⟩ } (some (.counting j))
  | again (d : Sdevdata ι) (j : Nat) : toInt32 (d.loops - 1) ≠ 0 →
      Callback d (.counting j) none { d with loops := toInt32 (d.loops - 1) } (some (.rearming j))
  | last (d : Sdevdata ι) (j : Nat) : toInt32 (d.loops - 1) = 0 →
      Callback d (.counting j) none { d with loops := toInt32 (d.loops - 1) } (some .waking)
  | rearm (d : Sdevdata ι) (j : Nat) :
      Callback d (.rearming j) none { d with prejif := j } (some .pending)
  | wake (d : Sdevdata ι) : Callback d .waking none d none

variable {ι : Type*} {d d' : Sdevdata ι} {stage : Stage} {w : Option (Write ι)} {next : Option Stage}

/-- The lines that the countdown has still to write. -/
def linesLeft (loops : Int) : Option Stage → Int
  | none | some .waking => 0
  | some (.counting _) => loops - 1
  | some .pending | some (.writing _) | some (.rearming _) => loops

/-- What an armed callback keeps of `loops`: it is used up exactly when there is nobody left to
count it down. -/
def Armed (loops : Int) : Option Stage → Prop
  | none | some .waking => loops = 0
  | some .pending | some (.writing _) | some (.counting _) | some (.rearming _) => 1 ≤ loops ∧ loops ≤ LOOPS

theorem Armed.linesLeft_nonneg {loops : Int} {work : Option Stage} (armed : Armed loops work) :
    0 ≤ linesLeft loops work := by
  rcases work with _ | (_ | _ | _ | _ | _) <;> simp only [Armed, linesLeft] at armed ⊢ <;> omega

theorem Armed.quiet {loops : Int} {work : Option Stage} (armed : Armed loops work) (zero : loops = 0) :
    work = none ∨ work = some .waking := by
  rcases work with _ | (_ | _ | _ | _ | _) <;> simp only [Armed] at armed <;> first | omega | simp

theorem Armed.linesLeft_eq_zero {loops : Int} {work : Option Stage} (armed : Armed loops work)
    (zero : loops = 0) : linesLeft loops work = 0 := by
  rcases armed.quiet zero with rfl | rfl <;> rfl

theorem toInt32_count {loops : Int} (range : 1 ≤ loops ∧ loops ≤ LOOPS) :
    toInt32 (loops - 1) = loops - 1 :=
  toInt32_of_range (by omega) (by unfold LOOPS at range; omega)

theorem Callback.step (stepped : Callback d stage w d' next) (armed : Armed d.loops (some stage)) :
    Armed d'.loops next ∧
      linesLeft d'.loops next = linesLeft d.loops (some stage) - if w.isSome then 1 else 0 := by
  cases stepped with
  | fire | write | wake | rearm => simp_all [Armed, linesLeft]
  | again j more =>
    simp only [Armed] at armed
    rw [toInt32_count armed] at more ⊢
    simp only [Armed, linesLeft, Option.isSome_none, Bool.false_eq_true, if_false]
    omega
  | last j done =>
    simp only [Armed] at armed
    rw [toInt32_count armed] at done ⊢
    simp only [Armed, linesLeft, Option.isSome_none, Bool.false_eq_true, if_false]
    omega

theorem Callback.zero_stays (stepped : Callback d stage w d' next) (armed : Armed d.loops (some stage))
    (zero : d.loops = 0) : d'.loops = 0 := by
  obtain none | waking := armed.quiet zero
  · cases none
  · cases waking
    cases stepped
    exact zero

theorem Callback.buf_none (stepped : Callback d stage none d' next) : d'.buf = d.buf := by
  cases stepped <;> rfl

theorem Callback.buf_some {e : Write ι} (stepped : Callback d stage (some e) d' next) :
    e.place = d.buf ∧ e.text.length ≤ 99 ∧ d'.buf = ⟨d.buf.page, d.buf.off + e.text.length⟩ := by
  cases stepped with
  | write j on => exact ⟨rfl, length_line _ _ _, rfl⟩

/-- What `wake_up_interruptible`, which the last run calls, does to a reader that stands at `p`. -/
def wakeUp {α : Type*} [DecidableEq α] (asleep testing : α) (stage : Stage) (p : α) : α :=
  if stage = .waking ∧ p = asleep then testing else p

theorem wakeUp_cases {α : Type*} [DecidableEq α] (asleep testing : α) (stage : Stage) (p : α) :
    wakeUp asleep testing stage p = p ∨ p = asleep ∧ wakeUp asleep testing stage p = testing := by
  unfold wakeUp
  split
  · next woken => exact .inr ⟨woken.2, rfl⟩
  · exact .inl rfl

theorem wakeUp_of_ne {α : Type*} [DecidableEq α] {asleep p : α} (testing : α) (stage : Stage)
    (awake : p ≠ asleep) : wakeUp asleep testing stage p = p :=
  if_neg fun both => awake both.2

/-! ### The countdown by itself -/

def Tick (x y : Sdevdata ι × Option Stage) : Prop :=
  ∃ stage w, x.2 = some stage ∧ Callback x.1 stage w y.1 y.2

instance : Inhabited Context := ⟨false, 0, 0, [], by decide, by decide, by decide⟩

theorem tick (stepped : Callback d stage w d' next) : Tick (d, some stage) (d', next) :=
  ⟨stage, w, rfl, stepped⟩

/-- The first half of a run started at `jiffies` zero, up to the countdown. -/
theorem half_round (d : Sdevdata ι) :
    ∃ d' : Sdevdata ι, d'.loops = d.loops ∧ d'.buf.page = d.buf.page ∧ d'.buf.off ≤ d.buf.off + 99 ∧
      Relation.ReflTransGen Tick (d, some .pending) (d', some (.counting 0)) := by
  have short := length_line 0 d.prejif default
  have fired : Relation.ReflTransGen Tick (d, some .pending) (d, some (.writing 0)) :=
    .single (tick (.fire d 0))
  have written := fired.tail (tick (.write d 0 default))
  generalize (line 0 d.prejif default).length = len at short written
  exact ⟨⟨d.prejif, ⟨d.buf.page, d.buf.off + len⟩, d.loops⟩, rfl, rfl, Nat.add_le_add_left short _, written⟩

/-- The countdown ends: left to itself, the armed callback comes to its wake-up. -/
theorem countdown (n : Nat) {d : Sdevdata ι} (loops : d.loops = n + 1) (high : d.loops ≤ LOOPS) :
    ∃ d' : Sdevdata ι, d'.loops = 0 ∧ d'.buf.page = d.buf.page ∧ d'.buf.off ≤ d.buf.off + 99 * (n + 1) ∧
      Relation.ReflTransGen Tick (d, some .pending) (d', some .waking) := by
  induction n generalizing d with
  | zero =>
    obtain ⟨d₁, kept, page, off, half⟩ := half_round d
    have done : toInt32 (d₁.loops - 1) = 0 := by
      rw [toInt32_count ⟨by omega, by omega⟩]
      omega
    exact ⟨⟨d₁.prejif, d₁.buf, toInt32 (d₁.loops - 1)⟩, done, page, off, half.tail (tick (.last d₁ 0 done))⟩
  | succ n ih =>
    obtain ⟨d₁, kept, page, off, half⟩ := half_round d
    have counted : toInt32 (d₁.loops - 1) = n + 1 := by
      rw [toInt32_count ⟨by omega, by omega⟩]
      omega
    have again := half.tail (tick (.again d₁ 0 (by omega)))
    obtain ⟨d₂, zero, page₂, off₂, rest⟩ :=
      ih (d := ⟨0, d₁.buf, toInt32 (d₁.loops - 1)⟩) counted (by dsimp only; omega)
    exact ⟨d₂, zero, page₂.trans page, by dsimp only at off₂; omega,
      (again.tail (tick (.rearm _ 0))).trans rest⟩

/-- As long as lines are left, the next one comes. -/
theorem reaches_writing (armed : Armed d.loops (some stage)) (left : linesLeft d.loops (some stage) ≠ 0) :
    ∃ (d' : Sdevdata ι) (j : Nat), Relation.ReflTransGen Tick (d, some stage) (d', some (.writing j)) := by
  have fires : ∀ d : Sdevdata ι, Relation.ReflTransGen Tick (d, some .pending) (d, some (.writing 0)) :=
    fun d => .single (tick (.fire d 0))
  cases stage with
  | pending => exact ⟨d, 0, fires d⟩
  | writing j => exact ⟨d, j, .refl⟩
  | counting j =>
    have more : toInt32 (d.loops - 1) ≠ 0 := by rwa [toInt32_count armed]
    exact ⟨_, 0, .head (tick (.again d j more)) (.head (tick (.rearm _ j)) (fires _))⟩
  | rearming j => exact ⟨_, 0, .head (tick (.rearm d j)) (fires _)⟩
  | waking => exact absurd rfl left

end Ldd3.Time
