import Ldd3.Time.Callback

/-!
How long the deferred work of `timer.c`, `tasklet.c` and `workqueue.c` may use what the reader gave
it. Each read of the proc file allocates its own `sdevdata`, arms the callback on it and sleeps until
`loops` is zero or a signal comes; the callback holds a pointer to the structure and, in `buf`, one
into the page the reader returns.
-/

namespace Ldd3.Time

open Base.Words Relation

inductive Scheme where
  | timer | tasklet | workqueue
  deriving DecidableEq

/-- Where `sdev_proc` is. The last three are returns: `-ENOMEM`, `-ERESTARTSYS` and a length. -/
inductive Handler where
  | calling
  | arming
  | testing
  | asleep
  | leaving
  | finishing
  | freeing (len : Int)
  | exiting (len : Int)
  | noMemory
  | interrupted
  | finished (len : Int)
  deriving DecidableEq

def Handler.returned : Handler → Bool
  | .noMemory | .interrupted | .finished _ => true
  | _ => false

/-- One read. `work` is the armed callback; `freed` says that `kfree` was called on `data`. -/
structure State where
  handler : Handler
  data : Sdevdata Unit
  work : Option Stage
  freed : Bool
  signal : Bool

inductive HandlerStep (scheme : Scheme) : State → State → Prop where
  | kmallocFails (s : State) : s.handler = .calling → HandlerStep scheme s { s with handler := .noMemory }
  | kmalloc (s : State) (j : Nat) : s.handler = .calling →
      HandlerStep scheme s { s with handler := .arming, data := ⟨j, ⟨(), 0⟩, LOOPS⟩ }
  | arm (s : State) : s.handler = .arming →
      HandlerStep scheme s { s with handler := .testing, work := some .pending }
  -- `wait_event_interruptible(data->wait, !data->loops)`
  | seesZero (s : State) : s.handler = .testing → s.data.loops = 0 →
      HandlerStep scheme s { s with handler := .leaving }
  | seesSignal (s : State) : s.handler = .testing → s.data.loops ≠ 0 → s.signal = true →
      HandlerStep scheme s { s with handler := .leaving }
  | sleep (s : State) : s.handler = .testing → s.data.loops ≠ 0 → s.signal = false →
      HandlerStep scheme s { s with handler := .asleep }
  | wakes (s : State) : s.handler = .asleep → s.signal = true →
      HandlerStep scheme s { s with handler := .testing }
  -- `if (signal_pending(current)) return -ERESTARTSYS;`
  | interrupted (s : State) : s.handler = .leaving → s.signal = true →
      HandlerStep scheme s { s with handler := .interrupted }
  | goesOn (s : State) : s.handler = .leaving → s.signal = false →
      HandlerStep scheme s { s with handler := .finishing }
  | readsBuf (s : State) : s.handler = .finishing →
      HandlerStep scheme s { s with handler := .freeing (toInt32 s.data.buf.off) }
  | kfree (s : State) (len : Int) : s.handler = .freeing len → scheme ≠ .workqueue →
      HandlerStep scheme s { s with handler := .exiting len, freed := true }
  -- `destroy_workqueue` returns once the queue runs nothing, and `kfree` is commented out
  | destroyWorkqueue (s : State) (len : Int) : s.handler = .freeing len → scheme = .workqueue →
      (s.work = none ∨ s.work = some .pending) → HandlerStep scheme s { s with handler := .exiting len }
  | returns (s : State) (len : Int) : s.handler = .exiting len →
      HandlerStep scheme s { s with handler := .finished len }
  | signalled (s : State) : HandlerStep scheme s { s with signal := true }

/-- Every step of the callback reads or writes `data`: the armed timer, `buf`, `loops` and the wait
queue all lie in it. -/
inductive CallbackStep : State → Option (Write Unit) → State → Prop where
  | run {stage : Stage} {w : Option (Write Unit)} {d : Sdevdata Unit} {next : Option Stage} (s : State) :
      s.work = some stage → Callback s.data stage w d next →
      CallbackStep s w { s with handler := wakeUp .asleep .testing stage s.handler, data := d, work := next }

def Step (scheme : Scheme) (s s' : State) : Prop := HandlerStep scheme s s' ∨ ∃ w, CallbackStep s w s'

def initial (d : Sdevdata Unit) : State := ⟨.calling, d, none, false, false⟩

/-- No step of the callback comes after `kfree(data)`, and no line after the reader's return. -/
def Within (s : State) : Prop :=
  ∀ w s', CallbackStep s w s' → s.freed = false ∧ (w.isSome → s.handler.returned = false)

/-- `kfree(data)` is called when no callback is armed or running, and `-ERESTARTSYS` returned when no
line is left to write. -/
def Orderly (s s' : State) : Prop :=
  (s.freed = false → s'.freed = true → s.work = none) ∧
    (s.handler = .leaving → s'.handler = .interrupted → linesLeft s.data.loops s.work = 0)

def OrderlyStep (scheme : Scheme) (s s' : State) : Prop := Step scheme s s' ∧ Orderly s s'

/-! ### The invariant of orderly runs -/

def Handler.unarmed : Handler → Bool
  | .calling | .arming | .noMemory => true
  | _ => false

def Handler.sawZero : Handler → Bool
  | .finishing | .freeing _ | .exiting _ | .finished _ => true
  | _ => false

def Handler.afterFree : Handler → Bool
  | .exiting _ | .finished _ => true
  | _ => false

structure Inv (s : State) : Prop where
  before : s.handler.unarmed = true → s.work = none
  filled : s.handler = .arming → s.data.loops = LOOPS
  armed : s.handler.unarmed = false → Armed s.data.loops s.work
  left : s.handler = .leaving → s.data.loops = 0 ∨ s.signal = true
  zero : s.handler.sawZero = true → s.data.loops = 0
  freed : s.freed = true → s.work = none ∧ s.handler.afterFree = true
  ended : s.handler.returned = true → linesLeft s.data.loops s.work = 0

variable {scheme : Scheme} {s s' : State}

theorem inv_initial (d : Sdevdata Unit) : Inv (initial d) := by
  constructor <;> simp [initial, Handler.unarmed, Handler.sawZero, Handler.returned]

theorem Inv.unarmed_of_running (inv : Inv s) {stage : Stage} (running : s.work = some stage) :
    s.handler.unarmed = false := by
  by_contra unarmed
  rw [inv.before (by simpa using unarmed)] at running
  cases running

theorem Inv.unfreed_of_running (inv : Inv s) {stage : Stage} (running : s.work = some stage) :
    s.freed = false := by
  by_contra freed
  rw [(inv.freed (by simpa using freed)).1] at running
  cases running

theorem Inv.unfreed (inv : Inv s) {p : Handler} (here : s.handler = p) (early : p.afterFree = false) :
    s.freed = false := by
  by_contra freed
  have late := (inv.freed (by simpa using freed)).2
  rw [here, early] at late
  cases late

/-- The reader moves on without touching what it shares with the callback. -/
theorem Inv.move (inv : Inv s) {p h : Handler} (here : s.handler = p) (same : p.unarmed = h.unarmed)
    (other : h ≠ .arming) (left : h = .leaving → s.data.loops = 0 ∨ s.signal = true)
    (zero : h.sawZero = true → s.data.loops = 0) (free : p.afterFree = true → h.afterFree = true)
    (ended : h.returned = true → linesLeft s.data.loops s.work = 0) : Inv { s with handler := h } := by
  subst here
  exact {
    before := fun unarmed => inv.before (same.trans unarmed)
    filled := fun arming => absurd arming other
    armed := fun unarmed => inv.armed (same.trans unarmed)
    left := left
    zero := zero
    freed := fun isFreed => (inv.freed isFreed).imp_right free
    ended := ended }

theorem Inv.handlerStep (inv : Inv s) (stepped : HandlerStep scheme s s') (orderly : Orderly s s') :
    Inv s' := by
  cases stepped with
  | kmallocFails here =>
    have unarmed := inv.before (by rw [here]; rfl)
    exact inv.move here rfl nofun nofun nofun nofun fun _ => by rw [unarmed]; rfl
  | kmalloc j here =>
    have unarmed := inv.before (by rw [here]; rfl)
    have unfreed := inv.unfreed here rfl
    exact ⟨fun _ => unarmed, fun _ => rfl, nofun, nofun, nofun, fun freed =>
      absurd (unfreed.symm.trans freed) Bool.false_ne_true, nofun⟩
  | arm here =>
    have armed : Armed s.data.loops (some .pending) := by
      rw [inv.filled here]
      exact ⟨by decide, le_rfl⟩
    have unfreed := inv.unfreed here rfl
    exact ⟨nofun, nofun, fun _ => armed, nofun, nofun, fun freed =>
      absurd (unfreed.symm.trans freed) Bool.false_ne_true, nofun⟩
  | seesZero here zero => exact inv.move here rfl nofun (fun _ => .inl zero) nofun nofun nofun
  | seesSignal here _ signal => exact inv.move here rfl nofun (fun _ => .inr signal) nofun nofun nofun
  | sleep here | wakes here => exact inv.move here rfl nofun nofun nofun nofun nofun
  | interrupted here => exact inv.move here rfl nofun nofun nofun nofun fun _ => orderly.2 here rfl
  | goesOn here quiet =>
    have zero : s.data.loops = 0 := (inv.left here).resolve_right (by simp [quiet])
    exact inv.move here rfl nofun nofun (fun _ => zero) nofun nofun
  | readsBuf here | destroyWorkqueue len here =>
    have zero := inv.zero (by rw [here]; rfl)
    exact inv.move here rfl nofun nofun (fun _ => zero) nofun nofun
  | kfree len here =>
    have zero := inv.zero (by rw [here]; rfl)
    have armed := inv.armed (by rw [here]; rfl)
    have none := orderly.1 (inv.unfreed here rfl) rfl
    exact ⟨nofun, nofun, fun _ => armed, nofun, fun _ => zero, fun _ => ⟨none, rfl⟩, nofun⟩
  | returns len here =>
    have zero := inv.zero (by rw [here]; rfl)
    have armed := inv.armed (by rw [here]; rfl)
    exact inv.move here rfl nofun nofun (fun _ => zero) (fun _ => rfl) fun _ => armed.linesLeft_eq_zero zero
  | signalled =>
    exact ⟨inv.before, inv.filled, inv.armed, fun _ => .inr rfl, inv.zero, inv.freed, inv.ended⟩

theorem Inv.callbackStep (inv : Inv s) {w : Option (Write Unit)} (stepped : CallbackStep s w s') :
    Inv s' := by
  obtain @⟨stage, w, d, next, s, running, stepped⟩ := stepped
  have started := inv.unarmed_of_running running
  have unfreed := inv.unfreed_of_running running
  have armed := running ▸ inv.armed started
  obtain ⟨nextArmed, lines⟩ := stepped.step armed
  have ended : s.handler.returned = true → linesLeft d.loops next = 0 := by
    intro returned
    have none := inv.ended returned
    rw [running] at none
    have some := nextArmed.linesLeft_nonneg
    split at lines <;> omega
  have zero := stepped.zero_stays armed
  rcases wakeUp_cases .asleep .testing stage s.handler with same | ⟨asleep, woken⟩
  · rw [same]
    refine ⟨fun unarmed => ?_, fun arming => ?_, fun _ => nextArmed, fun leaving =>
      (inv.left leaving).imp_left zero, fun saw => zero (inv.zero saw), fun isFreed => ?_, ended⟩
    · exact absurd (started.symm.trans unarmed) Bool.false_ne_true
    · rw [show s.handler = .arming from arming] at started
      cases started
    · exact absurd (unfreed.symm.trans isFreed) Bool.false_ne_true
  · rw [woken]
    exact ⟨nofun, nofun, fun _ => nextArmed, nofun, nofun, fun isFreed =>
      absurd (unfreed.symm.trans isFreed) Bool.false_ne_true, nofun⟩

theorem inv_of_run {d : Sdevdata Unit} (run : ReflTransGen (OrderlyStep scheme) (initial d) s) : Inv s := by
  induction run with
  | refl => exact inv_initial d
  | tail _ stepped ih =>
    obtain ⟨handler | ⟨w, callback⟩, orderly⟩ := stepped
    · exact ih.handlerStep handler orderly
    · exact ih.callbackStep callback

theorem Inv.within (inv : Inv s) : Within s := by
  intro w s' stepped
  obtain @⟨stage, w, d, next, s, running, stepped⟩ := stepped
  refine ⟨inv.unfreed_of_running running, fun writes => ?_⟩
  by_contra returned
  have none := inv.ended (by simpa using returned)
  obtain ⟨nextArmed, lines⟩ := stepped.step (running ▸ inv.armed (inv.unarmed_of_running running))
  have some := nextArmed.linesLeft_nonneg
  rw [running] at none
  rw [if_pos writes] at lines
  omega

/-! ### The two ways out of order -/

theorem orderly_of_kept (kept : s'.freed = s.freed)
    (goes : s'.handler = .interrupted → s'.handler = s.handler) : Orderly s s' := by
  refine ⟨fun before after => ?_, fun before after => ?_⟩
  · exact absurd (before.symm.trans (kept.symm.trans after)) Bool.false_ne_true
  · exact nomatch after.symm.trans ((goes after).trans before)

/-- The callback alone, while the reader stays where it is. -/
theorem run_of_ticks {x y : Sdevdata Unit × Option Stage} (ticks : ReflTransGen Tick x y) (s : State)
    (awake : s.handler ≠ .asleep) :
    ReflTransGen (OrderlyStep scheme) { s with data := x.1, work := x.2 }
      { s with data := y.1, work := y.2 } := by
  induction ticks with
  | refl => exact .refl
  | @tail y z _ ticked ih =>
    obtain ⟨stage, w, running, stepped⟩ := ticked
    have moved := CallbackStep.run { s with data := y.1, work := y.2 } running stepped
    rw [wakeUp_of_ne .testing stage awake] at moved
    exact ih.tail ⟨.inr ⟨w, moved⟩, orderly_of_kept rfl fun _ => rfl⟩

theorem run_of_orderly (run : ReflTransGen (OrderlyStep scheme) s s') : ReflTransGen (Step scheme) s s' :=
  ReflTransGen.mono (fun _ _ stepped => stepped.1) s s' run

theorem not_within_of_freed (running : s.work = some .waking) (freed : s.freed = true) : ¬ Within s := by
  intro within
  have unfreed := (within _ _ (.run s running (.wake s.data))).1
  exact absurd (unfreed.symm.trans freed) Bool.false_ne_true

theorem not_within_of_returned {j : Nat} (running : s.work = some (.writing j))
    (returned : s.handler.returned = true) : ¬ Within s := by
  intro within
  have waiting := (within _ _ (.run s running (.write s.data j default))).2 rfl
  exact absurd (waiting.symm.trans returned) Bool.false_ne_true

/-- A reader that frees or returns out of order leaves a callback that can go on after it. -/
theorem Inv.violated (inv : Inv s) (stepped : HandlerStep scheme s s') (early : ¬ Orderly s s') :
    ∃ u, ReflTransGen (Step scheme) s' u ∧ ¬ Within u := by
  cases stepped with
  | kfree len here =>
    have running : s.work ≠ none := fun none => early ⟨fun _ _ => none, fun _ after => nomatch after⟩
    have armed := inv.armed (by rw [here]; rfl)
    have waking := (armed.quiet (inv.zero (by rw [here]; rfl))).resolve_left running
    exact ⟨_, .refl, not_within_of_freed waking rfl⟩
  | interrupted here =>
    have left : linesLeft s.data.loops s.work ≠ 0 := fun none =>
      early ⟨fun before after => absurd (before.symm.trans after) Bool.false_ne_true, fun _ _ => none⟩
    have armed := inv.armed (by rw [here]; rfl)
    cases running : s.work with
    | none => exact absurd (by rw [running]; rfl) left
    | some stage =>
      rw [running] at armed left
      obtain ⟨d, j, ticks⟩ := reaches_writing armed left
      exact ⟨_, run_of_orderly (run_of_ticks ticks { s with handler := .interrupted } nofun),
        not_within_of_returned rfl rfl⟩
  | signalled => exact (early (orderly_of_kept rfl fun _ => rfl)).elim
  | _ => exact (early (orderly_of_kept rfl nofun)).elim

/-! ### Whole reads -/

def fresh : Sdevdata Unit := ⟨0, ⟨(), 0⟩, 0⟩

theorem armed_run (scheme : Scheme) :
    ReflTransGen (OrderlyStep scheme) (initial fresh)
      ⟨.testing, ⟨0, ⟨(), 0⟩, LOOPS⟩, some .pending, false, false⟩ := by
  have allocated : OrderlyStep scheme (initial fresh) ⟨.arming, ⟨0, ⟨(), 0⟩, LOOPS⟩, none, false, false⟩ :=
    ⟨.inl (.kmalloc _ 0 rfl), orderly_of_kept rfl nofun⟩
  exact (ReflTransGen.single allocated).tail ⟨.inl (.arm _ rfl), orderly_of_kept rfl nofun⟩

theorem counted_run (scheme : Scheme) :
    ∃ d, d.loops = 0 ∧
      ReflTransGen (OrderlyStep scheme) (initial fresh) ⟨.testing, d, some .waking, false, false⟩ := by
  obtain ⟨d, zero, -, -, ticks⟩ := countdown 9 (d := (⟨0, ⟨(), 0⟩, LOOPS⟩ : Sdevdata Unit)) rfl le_rfl
  exact ⟨d, zero, (armed_run scheme).trans (run_of_ticks ticks ⟨.testing, d, none, false, false⟩ nofun)⟩

/-- As long as the reader frees and returns in order, the callback stays within the lifetime of what
it was given; and the first time it does not, the callback can still be led out of it. -/
theorem within_of_orderly (scheme : Scheme) (d : Sdevdata Unit) {s : State}
    (run : ReflTransGen (OrderlyStep scheme) (initial d) s) :
    Within s ∧ ∀ s', HandlerStep scheme s s' → ¬ Orderly s s' →
      ∃ u, ReflTransGen (Step scheme) s' u ∧ ¬ Within u :=
  ⟨(inv_of_run run).within, fun _ => (inv_of_run run).violated⟩

theorem within_after_whole_read :
    ∃ s, ReflTransGen (OrderlyStep .timer) (initial fresh) s ∧ s.freed = true ∧ Within s := by
  obtain ⟨d, zero, run⟩ := counted_run .timer
  have woken := run.tail ⟨.inr ⟨none, .run _ rfl (.wake d)⟩, orderly_of_kept rfl nofun⟩
  have left := woken.tail ⟨.inl (.seesZero _ rfl zero), orderly_of_kept rfl nofun⟩
  have gone := left.tail ⟨.inl (.goesOn _ rfl rfl), orderly_of_kept rfl nofun⟩
  have read := gone.tail ⟨.inl (.readsBuf _ rfl), orderly_of_kept rfl nofun⟩
  have freed := read.tail ⟨.inl (.kfree _ _ rfl nofun), fun _ _ => rfl, nofun⟩
  exact ⟨_, freed, rfl, (within_of_orderly .timer fresh freed).1⟩

/-- With every scheme a signal ends the read while the callback is armed, and its next line goes into
a page that was given back. With a timer or a tasklet the reader may also see `loops` at zero before
the callback has called `wake_up_interruptible`, whose wait queue it then frees. -/
theorem callback_outlives_read :
    (∀ scheme, ∃ s, ReflTransGen (Step scheme) (initial fresh) s ∧ s.handler = .interrupted ∧ ¬ Within s) ∧
      ∀ scheme, scheme ≠ .workqueue →
        ∃ s, ReflTransGen (Step scheme) (initial fresh) s ∧ s.freed = true ∧ ¬ Within s := by
  refine ⟨fun scheme => ?_, fun scheme frees => ?_⟩
  · have signalled := (run_of_orderly (armed_run scheme)).tail (.inl (.signalled _))
    have left := signalled.tail (.inl (.seesSignal _ rfl (by decide) rfl))
    have returned := left.tail (.inl (.interrupted _ rfl rfl))
    have fired := returned.tail (.inr ⟨none, .run _ rfl (.fire _ 0)⟩)
    exact ⟨_, fired, rfl, not_within_of_returned rfl rfl⟩
  · obtain ⟨d, zero, run⟩ := counted_run scheme
    have left := (run_of_orderly run).tail (.inl (.seesZero _ rfl zero))
    have gone := left.tail (.inl (.goesOn _ rfl rfl))
    have read := gone.tail (.inl (.readsBuf _ rfl))
    have freed := read.tail (.inl (.kfree _ _ rfl frees))
    exact ⟨_, freed, rfl, not_within_of_freed rfl rfl⟩

end Ldd3.Time
