import Ldd3.Scullb.Space
import Ldd3.Scullb.Wakeup

/-!
Tasks that wait in `select` for the device of `nonblock/scullb.c`. In the first pass of its loop the
kernel lets `sdev_poll` put the task on `inq` and `outq`, in later ones it only asks for the mask. A
task that sees no event sleeps, unless a wake-up of one of the queues has `triggered` it meanwhile. The
queues are joined under the semaphore and before the pointers are looked at, so a write that comes too
late for the look finds the task on the queue.
-/

namespace Ldd3.Scullb.Tasks

open Base.Tasks Base.Words

/-- The descriptor sets that hold the device. -/
structure Want where
  reads : Bool
  writes : Bool

-- `POLLIN_SET` and `POLLOUT_SET` of the kernel
def Readable (mask : Nat) : Prop := mask &&& 0xd9 ≠ 0

def Writable (mask : Nat) : Prop := mask &&& 0x30c ≠ 0

def Want.Met (w : Want) (mask : Nat) : Prop := (w.reads ∧ Readable mask) ∨ (w.writes ∧ Writable mask)

inductive Select where
  | none
  | polling (want : Want) (enqueued triggered : Bool)
  | asleep (want : Want) (triggered : Bool)

def Select.notify : Notice → Select → Select
  | .wakeInq, .polling want true _ | .wakeOutq, .polling want true _ => .polling want true true
  | .wakeInq, .asleep want _ | .wakeOutq, .asleep want _ => .asleep want true
  | _, x => x

/-- A task and the `select` that it is in. The poll that `select` makes is a call of the task. -/
structure Watcher where
  task : Task
  select : Select

inductive SelectStep : Shared → Watcher → Shared → Watcher → Notice → Prop where
  | call {s x s' x' n} (stepped : Step s x s' x' n) : SelectStep s ⟨x, .none⟩ s' ⟨x', .none⟩ n
  | select {s x s' x' n} (want : Want) (stepped : Step s x s' x' n) (polls : x'.pc = .down .poll) :
      SelectStep s ⟨x, .none⟩ s' ⟨x', .polling want false false⟩ n
  | pollWait {s x} (want : Want) (enqueued triggered : Bool) (inside : x.pc = .test .poll) :
      SelectStep s ⟨x, .polling want enqueued triggered⟩ s ⟨x, .polling want true triggered⟩ .none
  | poll {s x s' x' n} (want : Want) (enqueued triggered : Bool) (stepped : Step s x s' x' n)
      (joined : x.pc = .test .poll → enqueued = true) (running : x'.pc ≠ .idle) :
      SelectStep s ⟨x, .polling want enqueued triggered⟩ s' ⟨x', .polling want enqueued triggered⟩ n
  | event {s x s' x' n} (want : Want) (enqueued triggered : Bool) {mask : Nat}
      (returned : x.pc = .returned (.ok mask)) (met : want.Met mask) (stepped : Step s x s' x' n) :
      SelectStep s ⟨x, .polling want enqueued triggered⟩ s' ⟨x', .none⟩ n
  | signal {s x s' x' n} (want : Want) (enqueued triggered : Bool) {ret : Except Errno Nat}
      (returned : x.pc = .returned ret) (stepped : Step s x s' x' n) :
      SelectStep s ⟨x, .polling want enqueued triggered⟩ s' ⟨x', .none⟩ n
  | sleep {s x s' x' n} (want : Want) (enqueued triggered : Bool) {mask : Nat}
      (returned : x.pc = .returned (.ok mask)) (unmet : ¬ want.Met mask) (stepped : Step s x s' x' n) :
      SelectStep s ⟨x, .polling want enqueued triggered⟩ s' ⟨x', .asleep want triggered⟩ n
  | resume {s x s' x' n} (want : Want) (triggered : Bool) (stepped : Step s x s' x' n)
      (polls : x'.pc = .down .poll) :
      SelectStep s ⟨x, .asleep want triggered⟩ s' ⟨x', .polling want true false⟩ n

def watching : Program Shared Watcher Notice :=
  ⟨SelectStep, fun n w => ⟨program.notify n w.task, w.select.notify n⟩⟩

def watched (ι : Type*) (g : Geometry) (mem : Int → UInt8) : Config Shared Watcher ι :=
  ⟨(loaded ι g mem).shared, fun t => ⟨(loaded ι g mem).task t, .none⟩⟩

variable {ι : Type*} [DecidableEq ι] {g : Geometry} {mem : Int → UInt8} {c : Config Shared Watcher ι}

/-! ### The calls below -/

theorem select_step {s s' : Shared} {w w' : Watcher} {n : Notice} (stepped : SelectStep s w s' w' n) :
    (s' = s ∧ w'.task = w.task ∧ n = .none) ∨ Step s w.task s' w'.task n := by
  cases stepped with
  | pollWait => exact Or.inl ⟨rfl, rfl, rfl⟩
  | call stepped => exact Or.inr stepped
  | select _ stepped => exact Or.inr stepped
  | poll _ _ _ stepped => exact Or.inr stepped
  | event _ _ _ _ _ stepped => exact Or.inr stepped
  | signal _ _ _ _ stepped => exact Or.inr stepped
  | sleep _ _ _ _ _ stepped => exact Or.inr stepped
  | resume _ _ stepped => exact Or.inr stepped

theorem step_pc {s s' : Shared} {x x' : Task} {n : Notice} (stepped : Step s x s' x' n) :
    PcStep s x.pc s' x'.pc n := by
  cases stepped with
  | mk stepped => exact stepped

/-- The calls of tasks that also wait in `select` are calls. -/
theorem calls_below (reachable : watching.Reachable (watched ι g mem) c) :
    program.Reachable (loaded ι g mem) (c.map id Watcher.task) := by
  refine reachable.project id Watcher.task ?_
  intro s w s' w' n stepped
  rcases select_step stepped with ⟨rfl, task, rfl⟩ | stepped
  · exact Or.inl ⟨rfl, task, fun y => notify_none y.task⟩
  · exact Or.inr ⟨n, stepped, fun y => rfl⟩

/-! ### The poll of a pass -/

theorem readable_iff (d : Sdev) : Readable (pollMask d) ↔ d.rp ≠ d.wp := by
  unfold Readable pollMask
  by_cases ready : d.rp ≠ d.wp <;> by_cases space : haveSpace d ≠ 0 <;> simp [ready, space]

theorem writable_always {d : Sdev} (h : Within d) : Writable (pollMask d) := by
  have space : haveSpace d ≠ 0 := by have := (haveSpace_range h).1; omega
  unfold Writable pollMask
  by_cases ready : d.rp ≠ d.wp <;> simp [ready, space]

/-- Where a task is in the poll that a pass of `select` makes, and the mask that it has got. -/
def Pc.OnPoll (ok : Nat → Prop) : Pc → Prop
  | .down r | .test r => r = .poll
  | .release e | .wake e => e.req = .poll ∧ ok e.ret
  | .returned (.ok mask) => ok mask
  | .returned (.error _) => True
  | _ => False

theorem onPoll_notify {ok : Nat → Prop} {x : Pc} (n : Notice) (on : x.OnPoll ok) : x.notify n = x := by
  cases x <;> first | exact absurd on id | (cases n <;> rfl)

theorem onPoll_step {ok : Nat → Prop} {s s' : Shared} {x x' : Pc} {n : Notice} (stepped : PcStep s x s' x' n)
    (on : x.OnPoll ok) (looks : x = .test .poll → ok (pollMask s.ring)) (running : x' ≠ .idle) : x'.OnPoll ok := by
  cases stepped with
  | interrupted r => trivial
  | down r free => exact on
  | mustWait r blocked =>
    cases (on : r = .poll)
    exact absurd blocked id
  | readReady | writeReady => cases (on : _ = Req.poll)
  | pollMask => exact ⟨rfl, looks rfl⟩
  | release e => exact on
  | wake e => exact on.2
  | back ret => exact absurd rfl running
  | _ => exact absurd on id

def Joined (enqueued : Bool) (mask : Nat) : Prop := Writable mask ∧ enqueued = true

def Select.Sound (x : Pc) : Select → Prop
  | .none => True
  | .polling _ enqueued _ => x.OnPoll (Joined enqueued)
  | .asleep want _ => want.writes = false

variable [Fintype ι]

theorem select_sound (reachable : watching.Reachable (watched ι g mem) c) (t : ι) :
    (c.task t).select.Sound (c.task t).task.pc := by
  refine reachable.local_invariant (A := fun _ w => w.select.Sound w.task.pc) (fun _ => trivial) ?_ ?_ t
  · intro c t s' w' n reachable sound stepped
    have look : (c.task t).task.pc = .test .poll → Within c.shared.ring := within_at_test (calls_below reachable)
    generalize c.task t = w at stepped sound look
    cases stepped with
    | call => trivial
    | select want stepped polls | resume want triggered stepped polls =>
      change Pc.OnPoll _ _
      rw [polls]
      rfl
    | pollWait want enqueued triggered inside =>
      change Pc.OnPoll _ _
      rw [inside]
      rfl
    | poll want enqueued triggered stepped joined running =>
      refine onPoll_step (step_pc stepped) sound (fun testing => ?_) running
      exact ⟨writable_always (look testing), joined testing⟩
    | event | signal => trivial
    | @sleep x s' x' n want enqueued triggered mask returned unmet stepped =>
      have on : x.pc.OnPoll (Joined enqueued) := sound
      rw [returned] at on
      cases writes : want.writes with
      | false => exact writes
      | true => exact absurd (Or.inr ⟨writes, on.1⟩) unmet
  · intro c t u s' w' n _ _ _ sound _
    generalize c.task u = w at sound
    obtain ⟨⟨pc, held, touched, returned⟩, select⟩ := w
    cases select with
    | none => cases n <;> trivial
    | asleep want triggered => cases n <;> exact sound
    | polling want enqueued triggered =>
      have still := onPoll_notify n sound
      have on : (pc.notify n).OnPoll (Joined enqueued) := still ▸ sound
      cases n <;> cases enqueued <;> exact on

/-! ### Sleepers -/

/-- The poll has got its mask, and it says that there is nothing to read. -/
def Pc.Missed : Pc → Prop
  | .release e | .wake e => ¬ Readable e.ret
  | .returned (.ok mask) => ¬ Readable mask
  | _ => False

/-- A task on the queues that has seen an empty ring and has not been triggered since. -/
def Watcher.Committed (w : Watcher) : Prop :=
  match w.select with
  | .none => False
  | .polling want enqueued triggered =>
    want.reads = true ∧ enqueued = true ∧ triggered = false ∧ w.task.pc.Missed
  | .asleep want triggered => want.reads = true ∧ triggered = false

def selectors : Discipline Shared Watcher where
  committed := Watcher.Committed
  ready s _ := s.ring.rp ≠ s.ring.wp
  owes w := w.task.pc.Owes

theorem not_owes_of_onPoll {ok : Nat → Prop} {x : Pc} (on : x.OnPoll ok) : ¬ x.Owes := by
  intro owes
  cases x with
  | release e | wake e =>
    obtain ⟨_, _, write⟩ := owes
    rw [on.1] at write
    cases write
  | wrap e => exact on
  | _ => exact owes

theorem missed_step {ok : Nat → Prop} {s s' : Shared} {x x' : Pc} {n : Notice} (stepped : PcStep s x s' x' n)
    (on : x.OnPoll ok) (missed : x'.Missed) (ready : s'.ring.rp ≠ s'.ring.wp) :
    x.Missed ∧ s'.ring = s.ring := by
  cases stepped with
  | pollMask => exact absurd ((readable_iff _).mpr ready) missed
  | release e => exact ⟨missed, rfl⟩
  | wake e => exact ⟨missed, rfl⟩
  | _ => first | exact absurd on id | exact absurd missed id

theorem committed_of_notify {n : Notice} {w : Watcher} (committed : (watching.notify n w).Committed) :
    w.Committed := by
  obtain ⟨⟨pc, held, touched, returned⟩, select⟩ := w
  have missed : (pc.notify n).Missed → pc.Missed := by
    intro missed
    cases pc with
    | waiting r m w => cases n <;> cases r <;> exact absurd missed id
    | _ => cases n <;> exact missed
  cases select with
  | none => cases n <;> exact committed
  | asleep want triggered =>
    cases n with
    | none => exact committed
    | wakeInq | wakeOutq => exact absurd committed.2 (by decide)
  | polling want enqueued triggered =>
    cases n with
    | none => exact ⟨committed.1, committed.2.1, committed.2.2.1, missed committed.2.2.2⟩
    | wakeInq | wakeOutq =>
      cases enqueued with
      | false => exact absurd committed.2.1 Bool.false_ne_true
      | true => exact absurd committed.2.2.1 (by decide)

theorem not_committed_of_wakeInq (w : Watcher) : ¬ (watching.notify .wakeInq w).Committed := by
  obtain ⟨task, select⟩ := w
  intro committed
  cases select with
  | none => exact committed
  | asleep want triggered => exact absurd committed.2 (by decide)
  | polling want enqueued triggered =>
    cases enqueued with
    | false => exact absurd committed.2.1 Bool.false_ne_true
    | true => exact absurd committed.2.2.1 (by decide)

theorem commit_step (reachable : watching.Reachable (watched ι g mem) c) {t : ι} {s' : Shared} {w' : Watcher}
    {n : Notice} (stepped : watching.step c.shared (c.task t) s' w' n) (committed : w'.Committed)
    (ready : s'.ring.rp ≠ s'.ring.wp) :
    (c.task t).Committed ∧ c.shared.ring.rp ≠ c.shared.ring.wp ∧ ¬ (c.task t).task.pc.Owes := by
  have sound := select_sound reachable t
  generalize c.task t = w at stepped sound
  cases stepped with
  | call | event | signal => exact absurd committed id
  | select => exact absurd committed.2.1 Bool.false_ne_true
  | pollWait want enqueued triggered inside =>
    have missed := committed.2.2.2
    rw [inside] at missed
    exact absurd missed id
  | resume want triggered stepped polls =>
    have missed := committed.2.2.2
    rw [polls] at missed
    exact absurd missed id
  | poll want enqueued triggered stepped joined running =>
    obtain ⟨reads, joins, fresh, missed⟩ := committed
    obtain ⟨before, ring⟩ := missed_step (step_pc stepped) sound missed ready
    exact ⟨⟨reads, joins, fresh, before⟩, ring ▸ ready, not_owes_of_onPoll sound⟩
  | @sleep x s' x' n want enqueued triggered mask returned unmet stepped =>
    obtain ⟨reads, fresh⟩ := committed
    have on : x.pc.OnPoll (Joined enqueued) := sound
    have silent := not_owes_of_onPoll on
    have stepped := step_pc stepped
    have missed : x.pc.Missed := by
      rw [returned]
      exact fun readable => unmet (Or.inl ⟨reads, readable⟩)
    rw [returned] at on
    refine ⟨⟨reads, on.2, fresh, missed⟩, ?_, silent⟩
    rw [returned] at stepped
    generalize x'.pc = pc' at stepped
    cases stepped with
    | back => exact ready

theorem no_lost_trigger (reachable : watching.Reachable (watched ι g mem) c) : selectors.NoLostWakeup c := by
  refine reachable.no_lost_wakeup selectors (fun _ => id) ?_ ?_ ?_ ?_ ?_
  · intro c t s' w' n reachable stepped committed ready
    exact commit_step reachable stepped committed ready
  · intro c t u s' w' n reachable _ stepped ready
    rcases select_step stepped with ⟨rfl, _, _⟩ | stepped
    · exact Or.inl ready
    · obtain ⟨d, _, stages, _⟩ := serial (calls_below reachable)
      by_cases empty : c.shared.ring.rp = c.shared.ring.wp
      · exact Or.inr (nonempty_rises (step_pc stepped) (stages t) empty ready)
      · exact Or.inl empty
  · intro s w s' w' n stepped owes
    rcases select_step stepped with ⟨_, same, _⟩ | stepped
    · exact Or.inl (show w'.task.pc.Owes by rw [same]; exact owes)
    · rcases owes_step (step_pc stepped) owes with still | rfl
      · exact Or.inl still
      · exact Or.inr not_committed_of_wakeInq
  · intro n w committed
    exact committed_of_notify committed
  · intro n w owes
    exact owes_notify owes

/-- A task that sleeps in `select` untriggered waits for reading only. If there is something to read,
a writer has moved `wp` and its `wake_up` of `inq` is still to come. -/
theorem selector_not_stranded (reachable : watching.Reachable (watched ι g mem) c) (t : ι) (want : Want)
    (asleep : (c.task t).select = .asleep want false) :
    want.writes = false ∧ (want.reads = true → c.shared.ring.rp ≠ c.shared.ring.wp →
      ∃ u e nonblock data, ((c.task u).task.pc = .wrap e ∨ (c.task u).task.pc = .release e ∨
        (c.task u).task.pc = .wake e) ∧ e.req = .write nonblock data) := by
  constructor
  · have sound := select_sound reachable t
    rw [asleep] at sound
    exact sound
  · intro reads ready
    have committed : (c.task t).Committed := by
      unfold Watcher.Committed
      rw [asleep]
      exact ⟨reads, rfl⟩
    obtain ⟨u, owes⟩ := no_lost_trigger reachable t committed ready
    obtain ⟨e, nonblock, data, place, write⟩ := owes_writer owes
    exact ⟨u, e, nonblock, data, place, write⟩

/-! ### A write into the sleep of a `select` -/

theorem watch_none (w : Watcher) : watching.notify .none w = w := by
  obtain ⟨⟨pc, held, touched, returned⟩, select⟩ := w
  cases pc <;> cases select <;> rfl

theorem silent_none {n : Notice} (silent : ∀ y, program.notify n y = y) : n = .none := by
  have reader := congrArg Task.pc (silent ⟨.waiting (.read false 0) true .schedule, 0, False, []⟩)
  have writer := congrArg Task.pc (silent ⟨.waiting (.write false []) true .schedule, 0, False, []⟩)
  cases n with
  | none => rfl
  | wakeInq => cases reader
  | wakeOutq => cases writer

theorem calls_alone {s s' : Shared} {x x' : Task} (alone : program.Solo s x s' x') :
    watching.Solo s ⟨x, .none⟩ s' ⟨x', .none⟩ := by
  induction alone with
  | refl s x => exact .refl _ _
  | step n stepped silent _ ih =>
    cases silent_none silent
    exact .step _ (.call stepped) watch_none ih

theorem select_alone {s : Shared} (free : 0 < s.sem) (empty : s.ring.rp = s.ring.wp) {w : Watcher}
    (idle : w.task.pc = .idle) (out : w.select = .none) :
    ∃ s' w', watching.Solo s w s' w' ∧ s'.ring = s.ring ∧ s'.sem = s.sem ∧
      w'.select = .asleep ⟨true, false⟩ false := by
  obtain ⟨⟨pc, held, touched, returned⟩, select⟩ := w
  cases idle
  cases out
  have unmet : ¬ Want.Met ⟨true, false⟩ (pollMask s.ring) := by
    rintro (⟨_, readable⟩ | ⟨writes, _⟩)
    · exact (readable_iff s.ring).mp readable empty
    · cases writes
  refine ⟨_, _, .step _ (.select ⟨true, false⟩ (.mk (.call s .poll)) rfl) watch_none <|
    .step _ (.poll _ _ _ (.mk (.down s _ free)) (by intro h; cases h) (by intro h; cases h)) watch_none <|
    .step _ (.pollWait _ _ _ rfl) watch_none <|
    .step _ (.poll _ _ _ (.mk (.pollMask _)) (fun _ => rfl) (by intro h; cases h)) watch_none <|
    .step _ (.poll _ _ _ (.mk (.release _ _)) (fun _ => rfl) (by intro h; cases h)) watch_none <|
    .step _ (.poll _ _ _ (.mk (.wake _ _)) (fun _ => rfl) (by intro h; cases h)) watch_none <|
    .step _ (.sleep _ _ _ rfl unmet (.mk (.back _ _))) watch_none <| .refl _ _, rfl, ?_, rfl⟩
  exact Int.sub_add_cancel s.sem 1

/-- A task waits in `select` on the empty ring and a writer has just moved `wp`. -/
theorem selector_not_stranded_writing :
    ∃ c : Config Shared Watcher (Fin 2), watching.Reachable (watched (Fin 2) devGeometry fun _ => 0) c ∧
      (c.task 0).select = .asleep ⟨true, false⟩ false ∧ c.shared.ring.rp ≠ c.shared.ring.wp ∧
      ∃ u e nonblock data, ((c.task u).task.pc = .wrap e ∨ (c.task u).task.pc = .release e ∨
        (c.task u).task.pc = .wake e) ∧ e.req = .write nonblock data := by
  have start : watching.Reachable (watched (Fin 2) devGeometry fun _ => 0) (watched _ _ _) := .init
  obtain ⟨s₁, w₁, first, ring₁, sem₁, slept⟩ := select_alone
    (s := (watched (Fin 2) devGeometry fun _ => 0).shared) (by decide) rfl
    (w := (watched (Fin 2) devGeometry fun _ => 0).task 0) rfl rfl
  obtain ⟨c₁, reached₁, shared₁, own₁, same₁⟩ := start.solo 0 first
  have other : c₁.task 1 = ⟨⟨.idle, 0, False, []⟩, .none⟩ := same₁ 1 (by decide)
  obtain ⟨s₂, x₂, second, rp, wp⟩ := move_alone (s := c₁.shared) (by rw [shared₁, sem₁]; decide)
    (by rw [shared₁, ring₁]; decide) [1, 2, 3] (x := ⟨.idle, 0, False, []⟩) rfl
  obtain ⟨c₂, reached₂, shared₂, _, same₂⟩ := reached₁.solo 1 (other ▸ calls_alone second)
  have asleep : (c₂.task 0).select = .asleep ⟨true, false⟩ false := by
    rw [same₂ 0 (by decide), own₁, slept]
  have ready : c₂.shared.ring.rp ≠ c₂.shared.ring.wp := by
    rw [shared₂, rp, wp, shared₁, ring₁]
    decide
  exact ⟨c₂, reached₂, asleep, ready, (selector_not_stranded reached₂ 0 _ asleep).2 rfl ready⟩

end Ldd3.Scullb.Tasks
