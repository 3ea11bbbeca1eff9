import Ldd3.Scullb.Tasks

/-!
Sleeping readers of `nonblock/scullb.c`. A sleeper's condition is `rp != wp`. A reader never makes it
true: it moves `rp` only while the ring is not empty, and its wrap takes `rp` from `end`, where `wp`
never stands. A writer that makes it true has a `wake_up_interruptible(&sdev.inq)` still to come.
-/

namespace Ldd3.Scullb.Tasks

open Base.Tasks Base.Words

/-- A reader that is enqueued on `inq` and still marked, with the test after the enqueueing made and
failed. -/
def Pc.Asleep : Pc → Prop
  | .waiting (.read _ _) marked .pending | .waiting (.read _ _) marked .schedule => marked = true
  | _ => False

/-- A writer that has moved `wp` and not yet woken `inq`. -/
def Pc.Owes : Pc → Prop
  | .wrap e | .release e | .wake e => ∃ nonblock data, e.req = .write nonblock data
  | _ => False

def readers : Discipline Shared Task where
  committed x := x.pc.Asleep
  ready s _ := s.ring.rp ≠ s.ring.wp
  owes x := x.pc.Owes

theorem asleep_of_notify {n : Notice} {x : Pc} (asleep : (x.notify n).Asleep) : x.Asleep := by
  cases x with
  | waiting r m w =>
    cases r <;> cases n <;> cases w <;> first | exact asleep | exact absurd asleep Bool.false_ne_true
  | _ => cases n <;> exact asleep

theorem not_asleep_of_wakeInq {x : Pc} : ¬ (x.notify .wakeInq).Asleep := by
  cases x with
  | waiting r m w => cases r <;> cases w <;> first | exact id | exact Bool.false_ne_true
  | _ => exact id

theorem owes_notify {n : Notice} {x : Pc} (owes : x.Owes) : (x.notify n).Owes := by
  cases x <;> first | exact absurd owes id | (cases n <;> exact owes)

/-- A reader falls asleep only after a failed test, and a sleeping reader owes nothing. -/
theorem asleep_step {s s' : Shared} {x x' : Pc} {n : Notice} (stepped : PcStep s x s' x' n)
    (asleep : x'.Asleep) : s'.ring = s.ring ∧ (s.ring.rp = s.ring.wp ∨ x.Asleep) ∧ ¬ x.Owes := by
  cases stepped with
  | readRetestFails nonblock len m blocked => exact ⟨rfl, Or.inl blocked, id⟩
  | readNoSignal nonblock len m => exact ⟨rfl, Or.inr asleep, id⟩
  | signal r m w => cases r <;> cases w <;> first | exact absurd asleep id | exact absurd asleep Bool.false_ne_true
  | prepareToWait r => cases r <;> exact absurd asleep id
  | _ => exact absurd asleep id

theorem owes_writer {x : Pc} (owes : x.Owes) :
    ∃ e nonblock data, (x = .wrap e ∨ x = .release e ∨ x = .wake e) ∧ e.req = .write nonblock data := by
  cases x with
  | wrap e =>
    obtain ⟨nonblock, data, write⟩ := owes
    exact ⟨e, nonblock, data, Or.inl rfl, write⟩
  | release e =>
    obtain ⟨nonblock, data, write⟩ := owes
    exact ⟨e, nonblock, data, Or.inr (Or.inl rfl), write⟩
  | wake e =>
    obtain ⟨nonblock, data, write⟩ := owes
    exact ⟨e, nonblock, data, Or.inr (Or.inr rfl), write⟩
  | _ => exact absurd owes id

theorem owes_step {s s' : Shared} {x x' : Pc} {n : Notice} (stepped : PcStep s x s' x' n) (owes : x.Owes) :
    x'.Owes ∨ n = .wakeInq := by
  cases stepped with
  | wrap e => exact Or.inl owes
  | release e => exact Or.inl owes
  | wake e =>
    obtain ⟨nonblock, data, write⟩ := owes
    exact Or.inr (by rw [write]; rfl)
  | _ => exact absurd owes id

/-- Only a writer makes the ring non-empty. -/
theorem nonempty_rises {s s' : Shared} {x x' : Pc} {n : Notice} {d : Sdev} (stepped : PcStep s x s' x' n)
    (stage : 0 < x.depth → Stage d s.ring x) (empty : s.ring.rp = s.ring.wp) (ready : s'.ring.rp ≠ s'.ring.wp) :
    x'.Owes := by
  cases stepped with
  | bump e =>
    obtain ⟨_, busy, _⟩ := stage Nat.one_pos
    obtain ⟨req, fault, ret, delivered⟩ := e
    cases req with
    | read nonblock len => exact absurd empty busy
    | write nonblock data => exact ⟨nonblock, data, rfl⟩
    | poll => exact absurd empty ready
  | wrap e =>
    obtain ⟨bound, _⟩ := stage Nat.one_pos
    obtain ⟨req, fault, ret, delivered⟩ := e
    cases req with
    | read nonblock len =>
      have below := bound nonblock len rfl
      have stays : ¬ s.ring.rp = s.ring.bufEnd := by omega
      have same : wrapRp s.ring = s.ring := if_neg stays
      simp only [Req.settle, same] at ready
      exact absurd empty ready
    | write nonblock data => exact ⟨nonblock, data, rfl⟩
    | poll => exact absurd empty ready
  | _ => exact absurd empty ready

variable {ι : Type*} [DecidableEq ι] [Fintype ι] {g : Geometry} {mem : Int → UInt8} {c : Config Shared Task ι}

theorem noLostWakeup (reachable : program.Reachable (loaded ι g mem) c) : readers.NoLostWakeup c := by
  refine reachable.no_lost_wakeup readers ?_ ?_ ?_ ?_ ?_ ?_
  · intro t asleep
    exact asleep
  · intro c t s' x' n _ stepped asleep ready
    cases stepped with
    | mk stepped =>
      obtain ⟨ring, before, free⟩ := asleep_step stepped asleep
      have nonempty : c.shared.ring.rp ≠ c.shared.ring.wp := by
        rw [← ring]
        exact ready
      exact ⟨before.resolve_left nonempty, nonempty, free⟩
  · intro c t u s' x' n reachable _ stepped ready
    obtain ⟨d, _, stages, _⟩ := serial reachable
    cases stepped with
    | mk stepped =>
      by_cases empty : c.shared.ring.rp = c.shared.ring.wp
      · exact Or.inr (nonempty_rises stepped (stages t) empty ready)
      · exact Or.inl empty
  · intro s x s' x' n stepped owes
    cases stepped with
    | mk stepped =>
      rcases owes_step stepped owes with still | rfl
      · exact Or.inl still
      · exact Or.inr fun y => not_asleep_of_wakeInq
  · intro n y asleep
    exact asleep_of_notify asleep
  · intro n y owes
    exact owes_notify owes

/-- No reader sleeps on `inq` while there is something to read, unless a writer has moved `wp` and
its `wake_up` of `inq` is still to come. -/
theorem reader_not_stranded (reachable : program.Reachable (loaded ι g mem) c) (t : ι) (nonblock : Bool)
    (len : Nat) (asleep : (c.task t).pc = .waiting (.read nonblock len) true .schedule)
    (ready : c.shared.ring.rp ≠ c.shared.ring.wp) :
    ∃ u e nonblock data, ((c.task u).pc = .wrap e ∨ (c.task u).pc = .release e ∨ (c.task u).pc = .wake e) ∧
      e.req = .write nonblock data := by
  have sleeping : (c.task t).pc.Asleep := by
    rw [asleep]
    rfl
  obtain ⟨u, owes⟩ := noLostWakeup reachable t sleeping ready
  obtain ⟨e, nonblock, data, place, write⟩ := owes_writer owes
  exact ⟨u, e, nonblock, data, place, write⟩

theorem sleep_alone {s : Shared} (free : 0 < s.sem) (empty : s.ring.rp = s.ring.wp) (len : Nat) {x : Task}
    (idle : x.pc = .idle) :
    ∃ x', program.Solo s x { s with sem := s.sem - 1 + 1 } x' ∧
      x'.pc = .waiting (.read false len) true .schedule := by
  obtain ⟨pc, held, touched, returned⟩ := x
  cases idle
  exact ⟨_, .step _ (.mk (.call s (.read false len))) notify_none <|
    .step _ (.mk (.down s _ free)) notify_none <|
    .step _ (.mk (.mustWait _ _ empty)) notify_none <|
    .step _ (.mk (.up _ _)) notify_none <|
    .step _ (.mk (.readWaits _ _ _ rfl)) notify_none <|
    .step _ (.mk (.pretestFails _ _ empty)) notify_none <|
    .step _ (.mk (.prepareToWait _ _)) notify_none <|
    .step _ (.mk (.readRetestFails _ _ _ _ empty)) notify_none <|
    .step _ (.mk (.readNoSignal _ _ _ _)) notify_none <| .refl _ _, rfl⟩

theorem move_alone {s : Shared} (free : 0 < s.sem) (space : haveSpace s.ring ≠ 0) (data : List UInt8) {x : Task}
    (idle : x.pc = .idle) :
    ∃ s' x', program.Solo s x s' x' ∧ s'.ring.rp = s.ring.rp ∧
      s'.ring.wp = s.ring.wp + writeCount s.ring data.length := by
  obtain ⟨pc, held, touched, returned⟩ := x
  cases idle
  exact ⟨_, _, .step _ (.mk (.call s (.write false data))) notify_none <|
    .step _ (.mk (.down s _ free)) notify_none <|
    .step _ (.mk (.writeReady _ _ _ space)) notify_none <|
    .step _ (.mk (.copyFromUser _ _ _ 0 _ _ _ rfl rfl (by simp [toInt32]) rfl)) notify_none <|
    .step _ (.mk (.bump _ _)) notify_none <| .refl _ _, rfl, rfl⟩

/-- A reader sleeps on the empty ring and a writer has just moved `wp`. -/
theorem reader_not_stranded_writing :
    ∃ c : Config Shared Task (Fin 2), program.Reachable (loaded (Fin 2) devGeometry fun _ => 0) c ∧
      (c.task 0).pc = .waiting (.read false 8) true .schedule ∧ c.shared.ring.rp ≠ c.shared.ring.wp ∧
      ∃ u e nonblock data, ((c.task u).pc = .wrap e ∨ (c.task u).pc = .release e ∨ (c.task u).pc = .wake e) ∧
        e.req = .write nonblock data := by
  have start : program.Reachable (loaded (Fin 2) devGeometry fun _ => 0) (loaded _ _ _) := .init
  obtain ⟨x₁, first, slept⟩ := sleep_alone (s := (loaded (Fin 2) devGeometry fun _ => 0).shared)
    (by decide) rfl 8 (x := (loaded (Fin 2) devGeometry fun _ => 0).task 0) rfl
  obtain ⟨c₁, reached₁, shared₁, own₁, same₁⟩ := start.solo 0 first
  obtain ⟨s₂, x₂, second, rp, wp⟩ := move_alone (s := c₁.shared) (by rw [shared₁]; decide)
    (by rw [shared₁]; decide) [1, 2, 3] (x := c₁.task 1) (by rw [same₁ 1 (by decide)]; rfl)
  obtain ⟨c₂, reached₂, shared₂, _, same₂⟩ := reached₁.solo 1 second
  have asleep : (c₂.task 0).pc = .waiting (.read false 8) true .schedule := by
    rw [same₂ 0 (by decide), own₁, slept]
  have ready : c₂.shared.ring.rp ≠ c₂.shared.ring.wp := by
    rw [shared₂, rp, wp, shared₁]
    decide
  exact ⟨c₂, reached₂, asleep, ready, reader_not_stranded reached₂ 0 false 8 asleep ready⟩

end Ldd3.Scullb.Tasks
