import Ldd3.Access.Owner

/-!
Sleeping openers of the device of `access/scullb.c`. A sleeper's condition is `sdev_available` for
its own credentials. It becomes true only when a close brings `user_count` to 0, since the owner is
assigned only while the count is 0 already, and that close then owes a `wake_up_interruptible`.
-/

namespace Ldd3.Access.Owner

open Base.Tasks Base.Words

/-- Enqueued and still marked, with the test after the enqueueing made and failed. -/
def Pc.Asleep (k : Call) : Pc → Prop
  | .waiting k' marked .pending | .waiting k' marked .schedule => k' = k ∧ marked = true
  | _ => False

/-- Has brought the count to 0 and not yet woken the queue. -/
def Pc.Owes (x : Pc) : Prop := x = .closed 0 ∨ x = .wake 0

def sleepers : Discipline Dev Task where
  committed x := ∃ k, x.pc.Asleep k
  ready d x := ∃ k, x.pc.Asleep k ∧ sdevAvailable d k.creds = true
  owes x := x.pc.Owes

theorem asleep_of_notify {n : Notice} {x : Pc} {k : Call} (asleep : (x.notify n).Asleep k) : x.Asleep k := by
  cases n with
  | none => exact asleep
  | wakeUp =>
    cases x with
    | waiting k' marked w => cases w <;> first | exact asleep | cases asleep.2
    | _ => exact asleep

theorem not_asleep_of_wakeUp {x : Pc} {k : Call} : ¬ (x.notify .wakeUp).Asleep k := by
  cases x with
  | waiting k' marked w => cases w <;> first | exact id | (intro asleep; cases asleep.2)
  | _ => exact id

theorem owes_notify {n : Notice} {x : Pc} (owes : x.Owes) : (x.notify n).Owes := by
  rcases owes with rfl | rfl <;> cases n
  · exact Or.inl rfl
  · exact Or.inl rfl
  · exact Or.inr rfl
  · exact Or.inr rfl

/-- A task falls asleep only after a failed test, and while it sleeps it takes no step that
changes the variables. -/
theorem asleep_step {d d' : Dev} {x x' : Pc} {n : Notice} {k : Call} (stepped : PcStep d x d' x' n)
    (asleep : x'.Asleep k) : d' = d ∧ (sdevAvailable d k.creds = false ∨ x.Asleep k) := by
  cases stepped with
  | retestFails k' m no => exact ⟨rfl, Or.inl (asleep.1 ▸ no)⟩
  | noSignal k' m => exact ⟨rfl, Or.inr asleep⟩
  | signal k' m w => cases w <;> first | exact absurd asleep id | cases asleep.2
  | _ => exact absurd asleep id

theorem owes_step {d d' : Dev} {x x' : Pc} {n : Notice} (stepped : PcStep d x d' x' n) (owes : x.Owes) :
    x'.Owes ∨ n = .wakeUp := by
  rcases owes with rfl | rfl
  · cases stepped
    exact Or.inl (Or.inr rfl)
  · cases stepped with
    | wakeUp => exact Or.inr rfl
    | noWakeUp _ nonzero => exact absurd rfl nonzero

variable {ι : Type*} [DecidableEq ι] [Fintype ι] {c : Config Dev Task ι}

theorem count_nonzero (few : Fintype.card ι < 2 ^ 32) (reachable : program.Reachable (loaded ι) c) {t : ι}
    (counted : (c.task t).Open) : c.shared.userCount ≠ 0 := by
  intro zero
  have residue := userCount_residue reachable
  have bound : c.count Task.Open ≤ Fintype.card ι := count_le_card _
  rw [zero, Int.cast_zero, eq_comm, ZMod.natCast_eq_zero_iff] at residue
  have none := Nat.eq_zero_of_dvd_of_lt residue (by omega)
  exact count_eq_zero.mp none t counted

theorem available_rises (few : Fintype.card ι < 2 ^ 32) (reachable : program.Reachable (loaded ι) c) {t : ι}
    {d' : Dev} {x' : Task} {n : Notice} (stepped : program.step c.shared (c.task t) d' x' n) {k : Creds}
    (available : sdevAvailable d' k = true) : sdevAvailable c.shared k = true ∨ x'.pc.Owes := by
  have reachable' := reachable.step t stepped
  cases stepped with
  | mk stepped =>
    rw [sdevAvailable_iff] at available ⊢
    rcases step_effect stepped with ⟨count, owner, _⟩ | ⟨_, _, _, zero, _⟩ | ⟨k', _, at', rfl⟩ | ⟨k', _, at', rfl⟩
    · rw [count, owner] at available
      exact Or.inl available
    · exact Or.inl (Or.inl zero)
    · have nonzero := count_nonzero few reachable' (t := t) (by rw [after_same, Task.Open, at']; rfl)
      exact Or.inl (Or.inr (available.resolve_left nonzero))
    · rcases available with zero | permits
      · exact Or.inr (Or.inl (by rw [at', zero]))
      · exact Or.inl (Or.inr permits)

theorem noLostWakeup (few : Fintype.card ι < 2 ^ 32) (reachable : program.Reachable (loaded ι) c) :
    sleepers.NoLostWakeup c := by
  refine reachable.no_lost_wakeup sleepers ?_ ?_ ?_ ?_ ?_ ?_
  · rintro t ⟨k, asleep⟩
    exact asleep
  · rintro c t d' x' n _ stepped - ⟨k, asleep, available⟩
    cases stepped with
    | mk stepped =>
      obtain ⟨rfl, failed | was⟩ := asleep_step stepped asleep
      · rw [failed] at available
        cases available
      · refine ⟨⟨k, was⟩, ⟨k, was, available⟩, fun owes => ?_⟩
        have owing : (c.task t).pc.Owes := owes
        rcases owing with eq | eq <;> rw [eq] at was <;> exact was
  · rintro c t u d' x' n reachable - stepped ⟨k, asleep, available⟩
    rcases available_rises few reachable stepped available with before | owes
    · exact Or.inl ⟨k, asleep_of_notify asleep, before⟩
    · exact Or.inr owes
  · intro d x d' x' n stepped owes
    cases stepped with
    | mk stepped =>
      rcases owes_step stepped owes with still | rfl
      · exact Or.inl still
      · exact Or.inr fun y committed => committed.elim fun k asleep => not_asleep_of_wakeUp asleep
  · rintro n y ⟨k, asleep⟩
    exact ⟨k, asleep_of_notify asleep⟩
  · intro n y owes
    exact owes_notify owes

/-- As long as fewer than `2 ^ 32` files exist, no opener sleeps on `sdev_wait` while the device is
available to it, unless a close has brought the count to 0 and its `wake_up` is still to come. -/
theorem opener_not_stranded (few : Fintype.card ι < 2 ^ 32) (reachable : program.Reachable (loaded ι) c)
    (t : ι) (k : Call) (asleep : (c.task t).pc = .waiting k true .schedule)
    (available : sdevAvailable c.shared k.creds = true) :
    ∃ u, (c.task u).pc = .closed 0 ∨ (c.task u).pc = .wake 0 := by
  have sleeping : (c.task t).pc.Asleep k := by
    rw [asleep]
    exact ⟨rfl, rfl⟩
  exact noLostWakeup few reachable t ⟨k, sleeping⟩ ⟨k, sleeping, available⟩

theorem sleep_alone {d : Dev} (free : d.spin = false) {k : Call} (no : sdevAvailable d k.creds = false)
    (clear : k.nonblock = false) (wrote : Bool) :
    ∃ wrote', program.Solo d ⟨.idle, wrote⟩ { d with spin := false } ⟨.waiting k true .schedule, wrote'⟩ :=
  ⟨_, .step _ (.mk (.sdevOpen d k)) notify_none <|
    .step _ (.mk (.spinLock d k free)) notify_none <|
    .step _ (.mk (.unavailable _ k no)) notify_none <|
    .step _ (.mk (.spinUnlock _ k)) notify_none <|
    .step _ (.mk (.blocking _ k clear)) notify_none <|
    .step _ (.mk (.pretestFails _ k no)) notify_none <|
    .step _ (.mk (.prepareToWait _ k)) notify_none <|
    .step _ (.mk (.retestFails _ k true no)) notify_none <|
    .step _ (.mk (.noSignal _ k true)) notify_none <| .refl _ _⟩

theorem close_alone {d : Dev} (free : d.spin = false) (k : Call) (wrote : Bool) :
    ∃ wrote', program.Solo d ⟨.opened k, wrote⟩ (decrement { d with spin := true })
      ⟨.closed (decrement { d with spin := true }).userCount, wrote'⟩ :=
  ⟨_, .step _ (.mk (.sdevClose d k)) notify_none <|
    .step _ (.mk (.lockClosing d k free)) notify_none <|
    .step _ (.mk (.decrement _ k)) notify_none <| .refl _ _⟩

def userSeven : Call := ⟨⟨7, 7, false⟩, false⟩

omit [Fintype ι] in
/-- User 7 falls asleep while root has the device open. -/
theorem userSeven_sleeps {r s : ι} (different : s ≠ r) :
    ∃ c, program.Reachable (loaded ι) c ∧ c.shared = grant .loaded root.creds ∧
      (c.task r).pc = .opened root ∧ (c.task s).pc = .waiting userSeven true .schedule ∧
      ∀ t, t ≠ r → t ≠ s → c.task t = ⟨.idle, false⟩ := by
  obtain ⟨_, first⟩ := open_alone (d := .loaded) rfl (root_available _) false
  obtain ⟨c₁, reached₁, shared₁, own₁, same₁⟩ := (start_reachable ι).solo r first
  obtain ⟨_, second⟩ := sleep_alone (d := c₁.shared) (k := userSeven) (by rw [shared₁]; rfl)
    (by rw [shared₁]; decide) rfl false
  have start : c₁.task s = ⟨.idle, false⟩ := same₁ s different
  obtain ⟨c₂, reached₂, shared₂, own₂, same₂⟩ := reached₁.solo s (start ▸ second)
  refine ⟨c₂, reached₂, ?_, ?_, by rw [own₂], ?_⟩
  · simp only [shared₂, shared₁, grant]
  · rw [same₂ r (Ne.symm different), own₁]
  · intro t notRoot notSleeper
    rw [same₂ t notSleeper, same₁ t notRoot]
    rfl

/-- Root has closed and brought the count to 0, user 7 sleeps, and root's wake-up is still to come. -/
theorem opener_not_stranded_closing :
    ∃ c : Config Dev Task (Fin 2), program.Reachable (loaded (Fin 2)) c ∧
      (c.task 1).pc = .waiting userSeven true .schedule ∧ sdevAvailable c.shared userSeven.creds = true ∧
      ∃ u, (c.task u).pc = .closed 0 ∨ (c.task u).pc = .wake 0 := by
  obtain ⟨c₁, reached₁, shared₁, opened, asleep, _⟩ := userSeven_sleeps (r := (0 : Fin 2)) (s := 1) (by decide)
  obtain ⟨_, closing⟩ := close_alone (d := c₁.shared) (by rw [shared₁]; rfl) root (c₁.task 0).wrote
  have start : c₁.task 0 = ⟨.opened root, (c₁.task 0).wrote⟩ := by rw [← opened]
  rw [← start] at closing
  obtain ⟨c₂, reached₂, shared₂, _, same₂⟩ := reached₁.solo 0 closing
  have asleep₂ : (c₂.task 1).pc = .waiting userSeven true .schedule := by rw [same₂ 1 (by decide), asleep]
  have available : sdevAvailable c₂.shared userSeven.creds = true := by
    rw [shared₂, shared₁]
    decide
  exact ⟨c₂, reached₂, asleep₂, available, opener_not_stranded (by decide) reached₂ 1 userSeven asleep₂ available⟩

/-- With `2 ^ 32` files opened by root the count is back at 0 without any close, and user 7 sleeps on. -/
theorem opener_stranded_by_wrap :
    ∃ c : Config Dev Task (Option (Fin (2 ^ 32))), program.Reachable (loaded (Option (Fin (2 ^ 32)))) c ∧
      (c.task none).pc = .waiting userSeven true .schedule ∧ sdevAvailable c.shared userSeven.creds = true ∧
      ∀ u, (c.task u).pc ≠ .closed 0 ∧ (c.task u).pc ≠ .wake 0 := by
  obtain ⟨c₁, reached₁, shared₁, opened₁, asleep₁, idle₁⟩ :=
    userSeven_sleeps (r := some (0 : Fin (2 ^ 32))) (s := none) (by simp)
  obtain ⟨c₂, reached₂, _, opened₂, same₂⟩ := open_all reached₁ (by rw [shared₁]; rfl)
    ((Finset.univ.erase none).erase (some 0)) (by
      intro t member
      simp only [Finset.mem_erase, Finset.mem_univ, and_true] at member
      rw [idle₁ t member.1 member.2])
  have asleep : (c₂.task none).pc = .waiting userSeven true .schedule := by
    rw [same₂ none (by simp), asleep₁]
  have opened : ∀ t, (c₂.task (some t)).pc = .opened root := by
    intro t
    by_cases first : t = 0
    · rw [first, same₂ (some 0) (by simp), opened₁]
    · exact opened₂ (some t) (by simp [first])
  have counted : c₂.count Task.Open = 2 ^ 32 := by
    have closed : ¬ (c₂.task none).Open := by
      rw [Task.Open, asleep]
      exact Bool.false_ne_true
    have others : ∀ t, (c₂.task (some t)).Open := by
      intro t
      rw [Task.Open, opened]
      rfl
    have all : (Finset.univ.filter fun t => (c₂.task t).Open) = Finset.univ.erase none := by
      ext t
      cases t with
      | none => simp [closed]
      | some t => simp [others]
    rw [Config.count, all, Finset.card_erase_of_mem (Finset.mem_univ _), Finset.card_univ, Fintype.card_option,
      Fintype.card_fin]
    rfl
  have zero : c₂.shared.userCount = 0 := by
    have range := userCount_range reached₂
    have residue := userCount_residue reached₂
    rw [counted, ZMod.natCast_self] at residue
    exact eq_of_residue (by rw [residue, Int.cast_zero]) range.1 range.2 (by decide) (by decide)
  refine ⟨c₂, reached₂, asleep, (sdevAvailable_iff _ _).mpr (Or.inl zero), ?_⟩
  intro u
  cases u with
  | none => simp [asleep]
  | some t => simp [opened]

end Ldd3.Access.Owner
