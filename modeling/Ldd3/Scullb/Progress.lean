import Ldd3.Base.Progress
import Ldd3.Scullb.Wakeup

/-!
What becomes of the calls of `nonblock/scullb.c`. A write waits for the semaphore only and never on
`outq`, since `have_space` is never zero; a read goes to `inq` only when it has found the ring empty.
Left alone, with no new calls and no signals, the tasks come to rest after a bounded number of steps,
however they are scheduled; and then every call has returned, apart from reads that sleep on an empty
ring.

The bound comes from a ranking. Between two steps that move a pointer or wake a queue a task only
goes forward: with the ring empty from `down` towards `schedule`, otherwise towards the copy.
-/

namespace Ldd3.Scullb.Tasks

open Base.Tasks Base.Words

/-! ### Who waits -/

/-- Only a read is ever in the body of its `while` loop, and only a blocking one past the flags. -/
def Pc.Passing : Pc → Prop
  | .up r | .flags r => ∃ nonblock len, r = .read nonblock len
  | .pretest r | .prepare r | .waiting r _ _ | .redown r => ∃ len, r = .read false len
  | .copy r => r ≠ .poll
  | .finished _ => False
  | _ => True

theorem passing_notify {n : Notice} {x : Pc} (passing : x.Passing) : (x.notify n).Passing := by
  cases x with
  | waiting r m w => cases n <;> cases r <;> exact passing
  | _ => cases n <;> exact passing

theorem read_of_blocked {d : Sdev} {r : Req} (h : Within d) (blocked : r.Blocked d) :
    ∃ nonblock len, r = .read nonblock len := by
  cases r with
  | read nonblock len => exact ⟨nonblock, len, rfl⟩
  | write nonblock data =>
    have space := (haveSpace_range h).1
    have none : haveSpace d = 0 := blocked
    omega
  | poll => exact absurd blocked id

theorem passing_step {s s' : Shared} {x x' : Pc} {n : Notice} (stepped : PcStep s x s' x' n) (passing : x.Passing)
    (within : ∀ r, x = .test r → Within s.ring) : x'.Passing := by
  cases stepped with
  | mustWait r blocked => exact read_of_blocked (within r rfl) blocked
  | up r => exact passing
  | readWaits nonblock len clear => exact ⟨len, by rw [clear]⟩
  | writeWaits nonblock data clear =>
    obtain ⟨_, _, same⟩ := passing
    cases same
  | pretestHolds r ready => exact passing
  | pretestFails r blocked => exact passing
  | prepareToWait r => exact passing
  | readRetestHolds nonblock len m ready => exact passing
  | readRetestFails nonblock len m blocked => exact passing
  | readNoSignal nonblock len m => exact passing
  | readResumes nonblock len => exact passing
  | writeRetestHolds nonblock data m ready =>
    obtain ⟨_, same⟩ := passing
    cases same
  | writeRetestFails nonblock data m blocked => exact passing
  | writeResumes nonblock data =>
    obtain ⟨_, same⟩ := passing
    cases same
  | signal r m w => exact passing
  | noSignal r => exact absurd passing id
  | readReady nonblock len ready => exact Req.noConfusion
  | writeReady nonblock data ready => exact Req.noConfusion
  | _ => trivial

variable {ι : Type*} [DecidableEq ι] [Fintype ι] {g : Geometry} {mem : Int → UInt8} {c : Config Shared Task ι}

theorem passing (reachable : program.Reachable (loaded ι g mem) c) (t : ι) : (c.task t).pc.Passing := by
  refine reachable.local_invariant (A := fun _ x => x.pc.Passing) (fun _ => trivial) ?_ ?_ t
  · intro c t s' x' n reachable before stepped
    cases stepped with
    | mk stepped => exact passing_step stepped before fun r testing => within_at_test reachable testing
  · intro c t u s' x' n _ _ _ before _
    exact passing_notify before

/-- A task that is about to give the semaphore up for a wait has just found the ring empty. -/
def Pc.Finds (ring : Sdev) : Pc → Prop
  | .up _ => ring.rp = ring.wp
  | _ => True

theorem finds_step {s s' : Shared} {x x' : Pc} {n : Notice} (stepped : PcStep s x s' x' n)
    (within : ∀ r, x = .test r → Within s.ring) : x'.Finds s'.ring := by
  cases stepped with
  | mustWait r blocked =>
    obtain ⟨nonblock, len, rfl⟩ := read_of_blocked (within r rfl) blocked
    exact blocked
  | _ => trivial

theorem finds (reachable : program.Reachable (loaded ι g mem) c) (t : ι) : (c.task t).pc.Finds c.shared.ring := by
  refine reachable.local_invariant (A := fun s x => x.pc.Finds s.ring) (fun _ => trivial) ?_ ?_ t
  · intro c t s' x' n reachable _ stepped
    cases stepped with
    | mk stepped => exact finds_step stepped fun r testing => within_at_test reachable testing
  · intro c t u s' x' n reachable other _ before stepped
    show ((c.task u).pc.notify n).Finds s'.ring
    generalize place : (c.task u).pc = x at before
    cases x with
    | up r =>
      -- nobody else is inside, so the ring stays as it is
      have inside : 0 < (c.task u).pc.depth := by
        rw [place]
        exact Nat.one_pos
      have outside : (c.task t).pc.depth = 0 := by
        by_contra busy
        exact other ((guarded reachable).exclusive (Nat.pos_of_ne_zero busy) inside)
      cases stepped with
      | mk stepped =>
        rw [(outside_step stepped outside).1]
        cases n <;> exact before
    | waiting r m w => cases n <;> cases r <;> trivial
    | _ => cases n <;> trivial

/-! ### Calls that fail -/

/-- Where the call `r` can be that has `met` an empty ring at its test, or has not. -/
def Pc.Serves (r : Req) (met : Prop) : Pc → Prop
  | .down r' | .test r' | .pretest r' | .prepare r' | .waiting r' _ _ | .finished r' | .redown r' | .copy r' => r' = r
  | .up r' | .flags r' => r' = r ∧ met
  | .returned (.error e) => e = .ERESTARTSYS ∨ (e = .EAGAIN ∧ (∃ len, r = .read true len) ∧ met)
  | _ => True

theorem serves_notify {n : Notice} {r : Req} {met : Prop} {x : Pc} (serves : x.Serves r met) :
    (x.notify n).Serves r met := by
  cases x with
  | waiting r' m w => cases n <;> cases r' <;> exact serves
  | _ => cases n <;> exact serves

theorem Pc.Serves.mono {r : Req} {met met' : Prop} (more : met → met') {x : Pc} (serves : x.Serves r met) :
    x.Serves r met' := by
  cases x with
  | up r' => exact serves.imp_right more
  | flags r' => exact serves.imp_right more
  | returned ret =>
    cases ret with
    | ok count => trivial
    | error e => exact serves.imp_right fun again => again.imp_right fun call => call.imp_right more
  | _ => exact serves

theorem serves_step {s s' : Shared} {x x' : Pc} {n : Notice} {r : Req} {met : Prop} (stepped : PcStep s x s' x' n)
    (passing : x.Passing) (within : ∀ r, x = .test r → Within s.ring) (sound : x ≠ .fault) (running : x ≠ .idle)
    (meets : x = .test r → s.ring.rp = s.ring.wp → met) (serves : x.Serves r met) : x'.Serves r met := by
  cases stepped with
  | call => exact absurd rfl running
  | mustWait r' blocked =>
    cases (serves : r' = r)
    obtain ⟨nonblock, len, rfl⟩ := read_of_blocked (within _ rfl) blocked
    exact ⟨rfl, meets rfl blocked⟩
  | wouldBlock r' set =>
    obtain ⟨rfl, met⟩ := serves
    obtain ⟨nonblock, len, rfl⟩ := passing
    have flag : nonblock = true := set
    exact Or.inr ⟨rfl, ⟨len, by rw [flag]⟩, met⟩
  | up r' => exact serves
  | readWaits nonblock len clear => exact serves.1
  | writeWaits nonblock data clear => exact serves.1
  | faultUp => exact absurd rfl sound
  | interrupted | readSignal | signalPending | reinterrupted => exact Or.inl rfl
  | _ => first | exact serves | trivial

/-- Some moment of the stretch at which the task tested an empty ring. -/
def Met (t : ι) (r : Req) (seen : List (Config Shared Task ι)) : Prop :=
  ∃ b ∈ seen, (b.task t).pc = .test r ∧ b.shared.ring.rp = b.shared.ring.wp

theorem serves_in_stretch {t : ι} {r : Req} {seen : List (Config Shared Task ι)} {c' : Config Shared Task ι}
    (reachable : program.Reachable (loaded ι g mem) c) (called : (c.task t).pc = .down r)
    (stretch : program.Stretch c seen c') (running : ∀ b ∈ seen, (b.task t).pc ≠ .idle) :
    (c'.task t).pc.Serves r (Met t r seen) := by
  induction stretch with
  | refl =>
    rw [called]
    rfl
  | @step seen c' u s' x' n before stepped ih =>
    have reached := before.reachable reachable
    have more : Met t r seen → Met t r (seen ++ [program.after c' u s' x' n]) := fun ⟨b, member, tested⟩ =>
      ⟨b, List.mem_append_left _ member, tested⟩
    have earlier := (ih fun b member => running b (List.mem_append_left _ member)).mono more
    by_cases mine : t = u
    · subst u
      have last := List.mem_append_left [program.after c' t s' x' n] before.last_mem
      rw [after_same]
      cases stepped with
      | mk stepped =>
        refine serves_step stepped (passing reached t) (fun r testing => within_at_test reached testing)
          (no_fault reached t) (running c' last) ?_ earlier
        exact fun tested empty => ⟨c', last, tested, empty⟩
    · rw [after_other mine]
      exact serves_notify earlier

/-- Only blocking reads wait on a queue, writes wait for the semaphore alone. A task that gives the
semaphore up for a wait is a read, and the ring is empty then. A call that returns an error was
interrupted by a signal, or it is a non-blocking read that found the ring empty at its test. -/
theorem only_readers_wait (reachable : program.Reachable (loaded ι g mem) c) (t : ι) :
    (∀ r marked w, (c.task t).pc = .waiting r marked w → ∃ len, r = .read false len) ∧
    (∀ r, (c.task t).pc = .up r →
      (∃ nonblock len, r = .read nonblock len) ∧ c.shared.ring.rp = c.shared.ring.wp) ∧
    ∀ r seen c' e, (c.task t).pc = .down r → program.Stretch c seen c' → (∀ b ∈ seen, (b.task t).pc ≠ .idle) →
      (c'.task t).pc = .returned (.error e) →
      e = .ERESTARTSYS ∨ (e = .EAGAIN ∧ (∃ len, r = .read true len) ∧
        ∃ b ∈ seen, (b.task t).pc = .test r ∧ b.shared.ring.rp = b.shared.ring.wp) := by
  have pass := passing reachable t
  refine ⟨?_, ?_, ?_⟩
  · intro r marked w waits
    rw [waits] at pass
    exact pass
  · intro r waits
    have empty := finds reachable t
    rw [waits] at pass empty
    exact ⟨pass, empty⟩
  · intro r seen c' e called stretch running failed
    have serves := serves_in_stretch reachable called stretch running
    rw [failed] at serves
    exact serves

omit [Fintype ι] in
theorem stretch_step {t : ι} {seen : List (Config Shared Task ι)} {c' : Config Shared Task ι} {s' : Shared} {pc' : Pc}
    {n : Notice} (stretch : program.Stretch c seen c') (running : ∀ b ∈ seen, (b.task t).pc ≠ .idle)
    (stepped : PcStep c'.shared (c'.task t).pc s' pc' n) (busy : pc' ≠ .idle) :
    ∃ seen' d, program.Stretch c seen' d ∧ (∀ b ∈ seen', (b.task t).pc ≠ .idle) ∧ d.shared = s' ∧
      (d.task t).pc = pc' := by
  refine ⟨_, _, stretch.step t (.mk stepped), ?_, rfl, by rw [after_same]⟩
  intro b member
  rcases List.mem_append.mp member with earlier | last
  · exact running b earlier
  · rw [List.mem_singleton.mp last, after_same]
    exact busy

omit [Fintype ι] in
theorem refuse_stretch {t : ι} {len : Nat} (called : (c.task t).pc = .down (.read true len)) (free : 0 < c.shared.sem)
    (empty : c.shared.ring.rp = c.shared.ring.wp) :
    ∃ seen c', program.Stretch c seen c' ∧ (∀ b ∈ seen, (b.task t).pc ≠ .idle) ∧
      (c'.task t).pc = .returned (.error .EAGAIN) := by
  have running : ∀ b ∈ [c], (b.task t).pc ≠ .idle := by
    rw [List.forall_mem_singleton, called]
    exact Pc.noConfusion
  obtain ⟨_, _, first, running₁, shared₁, at₁⟩ :=
    stretch_step .refl running (by rw [called]; exact .down _ _ free) Pc.noConfusion
  obtain ⟨_, _, second, running₂, shared₂, at₂⟩ :=
    stretch_step first running₁ (by rw [at₁, shared₁]; exact .mustWait _ _ empty) Pc.noConfusion
  obtain ⟨_, _, third, running₃, _, at₃⟩ :=
    stretch_step second running₂ (by rw [at₂]; exact .up _ _) Pc.noConfusion
  obtain ⟨seen, c', fourth, running₄, _, at₄⟩ :=
    stretch_step third running₃ (by rw [at₃]; exact .wouldBlock _ _ rfl) Pc.noConfusion
  exact ⟨seen, c', fourth, running₄, at₄⟩

/-- A non-blocking read of the empty ring. -/
theorem only_readers_wait_refused :
    ∃ (c c' : Config Shared Task (Fin 2)) (seen : List (Config Shared Task (Fin 2))),
      program.Reachable (loaded (Fin 2) devGeometry fun _ => 0) c ∧ program.Stretch c seen c' ∧
      (c'.task 0).pc = .returned (.error .EAGAIN) ∧
      ∃ b ∈ seen, (b.task 0).pc = .test (.read true 8) ∧ b.shared.ring.rp = b.shared.ring.wp := by
  obtain ⟨c, reached, called, free, empty⟩ : ∃ c : Config Shared Task (Fin 2),
      program.Reachable (loaded (Fin 2) devGeometry fun _ => 0) c ∧ (c.task 0).pc = .down (.read true 8) ∧
      0 < c.shared.sem ∧ c.shared.ring.rp = c.shared.ring.wp :=
    ⟨_, Program.Reachable.init.step 0 (.mk (.call _ (.read true 8))), rfl, Int.one_pos, rfl⟩
  obtain ⟨seen, c', stretch, running, refused⟩ := refuse_stretch called free empty
  refine ⟨c, c', seen, reached, stretch, refused, ?_⟩
  rcases (only_readers_wait reached 0).2.2 _ seen c' _ called stretch running refused with signal | ⟨_, _, found⟩
  · cases signal
  · exact found

/-! ### The ranking -/

/-- Steps of a call that may change what others see: the two updates of a pointer and the wake-up. -/
def Pc.debt : Pc → Nat
  | .idle | .returned _ | .fault => 0
  | .wake _ | .release _ => 1
  | .wrap _ => 2
  | _ => 3

def Pc.weight : Bool → Pc → Nat
  | _, .idle => 0
  | _, .returned _ | _, .wake _ => 1
  | _, .release _ | _, .fault => 2
  | _, .wrap _ => 3
  | _, .bump _ => 4
  | _, .copy _ => 5
  -- with the ring empty
  | true, .down _ | true, .redown _ => 17
  | true, .test _ => 16
  | true, .up _ => 15
  | true, .flags _ => 14
  | true, .pretest _ => 13
  | true, .waiting _ false .retest => 12
  | true, .waiting _ false .pending => 11
  | true, .waiting _ false .schedule => 10
  | true, .prepare _ => 9
  | true, .waiting _ true .retest => 8
  | true, .waiting _ true .pending => 7
  | true, .waiting _ true .schedule | true, .finished _ => 6
  -- with something to read
  | false, .waiting _ false .pending => 11
  | false, .waiting _ false .schedule | false, .up _ => 10
  | false, .prepare _ | false, .flags _ => 9
  | false, .waiting _ _ .retest | false, .pretest _ | false, .finished _ => 8
  | false, .down _ | false, .redown _ => 7
  | false, .test _ => 6
  | false, .waiting _ true .pending => 2
  | false, .waiting _ true .schedule => 1

theorem weight_le (empty : Bool) (x : Pc) : x.weight empty ≤ 17 := by
  cases x with
  | waiting r m w => cases empty <;> cases m <;> cases w <;> simp [Pc.weight]
  | _ => cases empty <;> simp [Pc.weight]

def ranking : Ranking Shared Task where
  debt x := x.pc.debt
  weight s x := x.pc.weight (decide (s.ring.rp = s.ring.wp))
  limit := 17
  weight_le _ _ := weight_le _ _

theorem debt_notify (n : Notice) (x : Pc) : (x.notify n).debt = x.debt := by
  cases n <;> cases x <;> first | rfl | (rename_i r _ _; cases r <;> rfl)

/-- Neither a new call nor a signal. -/
structure Undisturbed (x x' : Pc) : Prop where
  noCall : x ≠ .idle
  noInterrupt : x' ≠ .returned (.error .ERESTARTSYS)
  noSignal : ∀ r m w, x = .waiting r m w → x' ≠ .waiting r false w

def calm : Program Shared Task Notice := program.only fun x x' => Undisturbed x.pc x'.pc

/-- What a step does to the ranking: it pays a debt, or it sends nothing, leaves both pointers alone and
goes forward. -/
def Pc.Forward (s : Shared) (x : Pc) (s' : Shared) (x' : Pc) (n : Notice) : Prop :=
  x'.debt < x.debt ∨
    (x'.debt ≤ x.debt ∧ n = .none ∧ s'.ring.rp = s.ring.rp ∧ s'.ring.wp = s.ring.wp ∧
      x'.weight (decide (s.ring.rp = s.ring.wp)) < x.weight (decide (s.ring.rp = s.ring.wp)))

theorem forward_always {s s' : Shared} {x x' : Pc} (rp : s'.ring.rp = s.ring.rp) (wp : s'.ring.wp = s.ring.wp)
    (fewer : x'.debt ≤ x.debt) (lower : ∀ empty, x'.weight empty < x.weight empty) : x.Forward s s' x' .none :=
  Or.inr ⟨fewer, rfl, rp, wp, lower _⟩

theorem forward_empty {s : Shared} {x x' : Pc} (empty : s.ring.rp = s.ring.wp) (fewer : x'.debt ≤ x.debt)
    (lower : x'.weight true < x.weight true) : x.Forward s s x' .none :=
  Or.inr ⟨fewer, rfl, rfl, rfl, by rw [decide_eq_true empty]; exact lower⟩

theorem forward_filled {s : Shared} {x x' : Pc} (filled : s.ring.rp ≠ s.ring.wp) (fewer : x'.debt ≤ x.debt)
    (lower : x'.weight false < x.weight false) : x.Forward s s x' .none :=
  Or.inr ⟨fewer, rfl, rfl, rfl, by rw [decide_eq_false filled]; exact lower⟩

theorem forward_step {s s' : Shared} {x x' : Pc} {n : Notice} (stepped : PcStep s x s' x' n)
    (undisturbed : Undisturbed x x') (passing : x.Passing) (within : ∀ r, x = .test r → Within s.ring) :
    x.Forward s s' x' n := by
  cases stepped with
  | call r => exact absurd rfl undisturbed.noCall
  | interrupted r => exact absurd rfl undisturbed.noInterrupt
  | readSignal nonblock len m => exact absurd rfl undisturbed.noInterrupt
  | signalPending r => exact absurd rfl undisturbed.noInterrupt
  | reinterrupted r => exact absurd rfl undisturbed.noInterrupt
  | signal r m w => exact absurd rfl (undisturbed.noSignal r m w rfl)
  -- where the way depends on the ring
  | mustWait r blocked =>
    obtain ⟨nonblock, len, rfl⟩ := read_of_blocked (within r rfl) blocked
    exact forward_empty blocked (Nat.le_refl _) (by simp [Pc.weight])
  | readReady nonblock len ready => exact forward_filled ready (Nat.le_refl _) (by simp [Pc.weight])
  | pretestHolds r ready =>
    obtain ⟨len, rfl⟩ := passing
    exact forward_filled ready (Nat.le_refl _) (by simp [Pc.weight])
  | pretestFails r blocked =>
    obtain ⟨len, rfl⟩ := passing
    exact forward_empty blocked (Nat.le_refl _) (by simp [Pc.weight])
  | readRetestHolds nonblock len m ready =>
    exact forward_filled ready (Nat.le_refl _) (by cases m <;> simp [Pc.weight])
  | readRetestFails nonblock len m blocked =>
    exact forward_empty blocked (Nat.le_refl _) (by cases m <;> simp [Pc.weight])
  -- the steps that pay
  | wouldBlock r set => exact Or.inl (by simp [Pc.debt])
  | copyToUserFails nonblock len fault left missed negative => exact Or.inl (by simp [Pc.debt])
  | copyFromUserFails nonblock data fault count left counted missed negative => exact Or.inl (by simp [Pc.debt])
  | bump e => exact Or.inl (by simp [Pc.debt])
  | wrap e => exact Or.inl (by simp [Pc.debt])
  | wake e => exact Or.inl (by simp [Pc.debt])
  -- a write is never here
  | writeWaits nonblock data clear =>
    obtain ⟨_, _, same⟩ := passing
    cases same
  | writeRetestHolds nonblock data m ready =>
    obtain ⟨_, same⟩ := passing
    cases same
  | writeRetestFails nonblock data m blocked =>
    obtain ⟨_, same⟩ := passing
    cases same
  | writeResumes nonblock data =>
    obtain ⟨_, same⟩ := passing
    cases same
  | noSignal r => exact absurd passing id
  | readNoSignal nonblock len m =>
    exact forward_always rfl rfl (Nat.le_refl _) fun empty => by cases empty <;> cases m <;> simp [Pc.weight]
  | _ => exact forward_always rfl rfl (by simp [Pc.debt]) fun empty => by cases empty <;> simp [Pc.weight]

theorem lowers_step {s s' : Shared} {x x' : Task} {n : Notice} (forward : x.pc.Forward s s' x'.pc n) :
    ranking.Lowers (program.notify n) s x s' x' := by
  rcases forward with paid | ⟨fewer, rfl, rp, wp, lower⟩
  · exact Or.inl paid
  · refine Or.inr ⟨fewer, ?_, ?_⟩
    · simp only [ranking, rp, wp]
      exact lower
    · intro y
      simp only [ranking, rp, wp]
      exact Nat.le_refl _

/-! ### Rest -/

/-- Nobody can go on without a new call or a signal. -/
def AtRest (c : Config Shared Task ι) : Prop := ∀ t s' x' n, ¬ calm.step c.shared (c.task t) s' x' n

theorem calm_step {s s' : Shared} {x : Task} {pc' : Pc} {n : Notice} (stepped : PcStep s x.pc s' pc' n)
    (undisturbed : Undisturbed x.pc pc') : ∃ s' x' n, calm.step s x s' x' n :=
  ⟨_, _, _, .mk stepped, undisturbed⟩

theorem goes_on {s : Shared} {x : Task} (passing : x.pc.Passing) (busy : x.pc ≠ .idle) (sound : x.pc ≠ .fault)
    (awake : ∀ len, x.pc ≠ .waiting (.read false len) true .schedule) (lock : x.pc.depth = 0 → 0 < s.sem) :
    ∃ s' x' n, calm.step s x s' x' n := by
  obtain ⟨pc, held, touched, returned⟩ := x
  simp only at passing busy sound awake lock
  cases pc with
  | idle => exact absurd rfl busy
  | fault => exact absurd rfl sound
  | finished r => exact absurd passing id
  | down r => exact calm_step (.down s r (lock rfl)) ⟨by simp, by simp, by simp⟩
  | redown r => exact calm_step (.redown s r (lock rfl)) ⟨by simp, by simp, by simp⟩
  | test r =>
    by_cases blocked : r.Blocked s.ring
    · exact calm_step (.mustWait s r blocked) ⟨by simp, by simp, by simp⟩
    · cases r with
      | read nonblock len => exact calm_step (.readReady s nonblock len blocked) ⟨by simp, by simp, by simp⟩
      | write nonblock data => exact calm_step (.writeReady s nonblock data blocked) ⟨by simp, by simp, by simp⟩
      | poll => exact calm_step (.pollMask s) ⟨by simp, by simp, by simp⟩
  | up r => exact calm_step (.up s r) ⟨by simp, by simp, by simp⟩
  | flags r =>
    obtain ⟨nonblock, len, rfl⟩ := passing
    cases nonblock with
    | true => exact calm_step (.wouldBlock s _ rfl) ⟨by simp, by simp, by simp⟩
    | false => exact calm_step (.readWaits s false len rfl) ⟨by simp, by simp, by simp⟩
  | pretest r =>
    by_cases blocked : r.Blocked s.ring
    · exact calm_step (.pretestFails s r blocked) ⟨by simp, by simp, by simp⟩
    · exact calm_step (.pretestHolds s r blocked) ⟨by simp, by simp, by simp⟩
  | prepare r => exact calm_step (.prepareToWait s r) ⟨by simp, by simp, by simp⟩
  | waiting r m w =>
    obtain ⟨len, rfl⟩ := passing
    cases w with
    | retest =>
      by_cases blocked : Req.Blocked s.ring (.read false len)
      · exact calm_step (.readRetestFails s false len m blocked) ⟨by simp, by simp, by simp⟩
      · exact calm_step (.readRetestHolds s false len m blocked) ⟨by simp, by simp, by simp⟩
    | pending => exact calm_step (.readNoSignal s false len m) ⟨by simp, by simp, by simp⟩
    | schedule =>
      cases m with
      | true => exact absurd rfl (awake len)
      | false => exact calm_step (.readResumes s false len) ⟨by simp, by simp, by simp⟩
  | copy r =>
    cases r with
    | read nonblock len =>
      exact calm_step (.copyToUser s nonblock len 0 _ _ _ rfl rfl (Nat.not_lt_zero _) rfl) ⟨by simp, by simp, by simp⟩
    | write nonblock data =>
      exact calm_step (.copyFromUser s nonblock data 0 _ _ _ rfl rfl (by simp [toInt32]) rfl)
        ⟨by simp, by simp, by simp⟩
    | poll => exact absurd rfl passing
  | bump e => exact calm_step (.bump s e) ⟨by simp, by simp, by simp⟩
  | wrap e => exact calm_step (.wrap s e) ⟨by simp, by simp, by simp⟩
  | release e => exact calm_step (.release s e) ⟨by simp, by simp, by simp⟩
  | wake e => exact calm_step (.wake s e) ⟨by simp, by simp, by simp⟩
  | returned ret => exact calm_step (.back s ret) ⟨by simp, by simp, by simp⟩

theorem rest_outside (reachable : program.Reachable (loaded ι g mem) c) (rest : AtRest c) (t : ι) :
    (c.task t).pc.depth = 0 := by
  by_contra inside
  have busy : (c.task t).pc ≠ .idle := fun idle => inside (by rw [idle]; rfl)
  have awake : ∀ len, (c.task t).pc ≠ .waiting (.read false len) true .schedule := fun len waits =>
    inside (by rw [waits]; rfl)
  obtain ⟨s', x', n, stepped⟩ := goes_on (s := c.shared) (passing reachable t) busy (no_fault reachable t) awake
    fun outside => absurd outside inside
  exact rest t s' x' n stepped

theorem rest_free (reachable : program.Reachable (loaded ι g mem) c) (rest : AtRest c) : c.shared.sem = 1 := by
  have balance := sem_depth reachable
  rw [Finset.sum_eq_zero fun t _ => rest_outside reachable rest t] at balance
  simpa using balance

theorem rest_asleep (reachable : program.Reachable (loaded ι g mem) c) (rest : AtRest c) (t : ι) :
    (c.task t).pc = .idle ∨ ∃ len, (c.task t).pc = .waiting (.read false len) true .schedule := by
  have free := rest_free reachable rest
  by_contra neither
  have busy : (c.task t).pc ≠ .idle := fun idle => neither (Or.inl idle)
  have awake : ∀ len, (c.task t).pc ≠ .waiting (.read false len) true .schedule := fun len waits =>
    neither (Or.inr ⟨len, waits⟩)
  obtain ⟨s', x', n, stepped⟩ := goes_on (s := c.shared) (passing reachable t) busy (no_fault reachable t) awake
    fun _ => by omega
  exact rest t s' x' n stepped

/-- A reader that still sleeps at rest has nothing to read: otherwise a writer would owe a wake-up. -/
theorem rest_empty (reachable : program.Reachable (loaded ι g mem) c) (rest : AtRest c) {t : ι} {len : Nat}
    (sleeps : (c.task t).pc = .waiting (.read false len) true .schedule) : c.shared.ring.rp = c.shared.ring.wp := by
  by_contra ready
  have asleep : (c.task t).pc.Asleep := by
    rw [sleeps]
    rfl
  obtain ⟨u, owes⟩ := noLostWakeup reachable t asleep ready
  have owing : (c.task u).pc.Owes := owes
  rcases rest_asleep reachable rest u with idle | ⟨len', waits⟩
  · rw [idle] at owing
    exact owing
  · rw [waits] at owing
    exact owing

def bound (tasks : Nat) : Nat := (17 * tasks + 1) * (3 * tasks) + 17 * tasks

theorem debt_le (x : Task) : ranking.debt x ≤ 3 := by
  obtain ⟨pc, held, touched, returned⟩ := x
  cases pc <;> simp [ranking, Pc.debt]

/-- Left alone the tasks come to rest: no run without new calls and signals has more than
`bound` steps. At rest the semaphore is free and every call has returned, apart from blocking reads
that sleep on an empty ring. -/
theorem calls_end (reachable : program.Reachable (loaded ι g mem) c) {seen : List (Config Shared Task ι)}
    {c' : Config Shared Task ι} (stretch : calm.Stretch c seen c') :
    seen.length ≤ bound (Fintype.card ι) + 1 ∧
    (AtRest c' → c'.shared.sem = 1 ∧
      ∀ t, (c'.task t).pc = .idle ∨
        (∃ len, (c'.task t).pc = .waiting (.read false len) true .schedule) ∧
          c'.shared.ring.rp = c'.shared.ring.wp) := by
  have deaf : ∀ n x, ranking.debt (calm.notify n x) = ranking.debt x := fun n x => debt_notify n x.pc
  have lower : ∀ (c : Config Shared Task ι) t s' x' n, program.Reachable (loaded ι g mem) c →
      calm.step c.shared (c.task t) s' x' n → ranking.Lowers (calm.notify n) c.shared (c.task t) s' x' := by
    intro c t s' x' n reachable stepped
    obtain ⟨stepped, undisturbed⟩ := stepped
    cases stepped with
    | mk stepped =>
      exact lowers_step (forward_step stepped undisturbed (passing reachable t) fun r testing =>
        within_at_test reachable testing)
  obtain ⟨reached, length⟩ := stretch.bounded deaf reachable
    (fun c t s' x' n before stepped => before.step t stepped.1)
    lower
  refine ⟨?_, fun rest => ⟨rest_free reached rest, fun t => ?_⟩⟩
  · have most : ranking.potential c ≤ bound (Fintype.card ι) := potential_le debt_le c
    omega
  · rcases rest_asleep reached rest t with idle | ⟨len, waits⟩
    · exact Or.inl idle
    · exact Or.inr ⟨⟨len, waits⟩, rest_empty reached rest waits⟩

theorem still {s s' : Shared} {x x' : Task} {n : Notice}
    (resting : x.pc = .idle ∨ ∃ r, x.pc = .waiting r true .schedule) : ¬ calm.step s x s' x' n := by
  rintro ⟨stepped, undisturbed⟩
  cases stepped with
  | mk stepped =>
    generalize x.pc = pc at stepped undisturbed resting
    rcases resting with rfl | ⟨r, rfl⟩
    · exact undisturbed.noCall rfl
    · cases stepped with
      | signal => exact undisturbed.noSignal _ _ _ rfl rfl

/-- A reader sleeps on the empty ring and nobody else is there: that is rest. -/
theorem calls_end_asleep :
    ∃ c : Config Shared Task (Fin 2), program.Reachable (loaded (Fin 2) devGeometry fun _ => 0) c ∧ AtRest c ∧
      (c.task 0).pc = .waiting (.read false 8) true .schedule ∧ c.shared.sem = 1 := by
  have start : program.Reachable (loaded (Fin 2) devGeometry fun _ => 0) (loaded _ _ _) := .init
  obtain ⟨x₁, alone, slept⟩ := sleep_alone (s := (loaded (Fin 2) devGeometry fun _ => 0).shared)
    (by decide) rfl 8 (x := (loaded (Fin 2) devGeometry fun _ => 0).task 0) rfl
  obtain ⟨c, reached, _, own, same⟩ := start.solo 0 alone
  have asleep : (c.task 0).pc = .waiting (.read false 8) true .schedule := by rw [own, slept]
  have idle : (c.task 1).pc = .idle := by rw [same 1 (by decide)]; rfl
  have rest : AtRest c := by
    intro t s' x' n
    have all : ∀ t : Fin 2, t = 0 ∨ t = 1 := by decide
    rcases all t with rfl | rfl
    · exact still (Or.inr ⟨_, asleep⟩)
    · exact still (Or.inl idle)
  exact ⟨c, reached, rest, asleep, ((calls_end reached .refl).2 rest).1⟩

end Ldd3.Scullb.Tasks
