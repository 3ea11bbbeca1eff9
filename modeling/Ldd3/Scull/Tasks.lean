import Ldd3.Base.Tasks
import Ldd3.Scull.RoundTrip

/-!
Tasks that open, read and write the device of `scull0` at the same time. Every access to the device is
made under `scull.sema`, so what a call does between its `down_interruptible` and its `up` is one
step; the two are steps of their own. A call that faults stays inside and keeps the semaphore.

An open with `O_WRONLY` truncates the device in `scull_trim`, which has no result. If the
`down_interruptible` there is interrupted, nothing is truncated and `scull_open` returns 0 all the
same. An open that is not interrupted empties the device, and whatever can be read later was put there
after that moment.
-/

namespace Ldd3.Scull.Tasks

open Base.Tasks

variable {p : Params}

/-- Bytes that a write has put into a quantum. -/
structure Put (p : Params) where
  place : Place p
  bytes : List UInt8

/-- `log` is not in the source: what the writes so far have put where. -/
structure Shared (p : Params) where
  dev : Dev
  log : List (Put p)

inductive Req where
  | read (off : Int) (len fault : Nat)
  | write (off : Int) (user : List UInt8) (fault : Nat)

inductive Pc where
  | idle
  | opening | trimming | trimmed | opened (interrupted : Bool)
  | down (r : Req) | inside (r : Req) | up

-- the calls of `Scull.Device` take the semaphore and give it back themselves, so they are run on `d.up`
inductive Step (p : Params) : Shared p → Pc → Shared p → Pc → Unit → Prop where
  | openOther (s) {flags : Nat} : flags &&& 3 ≠ 1 → Step p s .idle s .idle ()
  | openWriteOnly (s) {flags : Nat} : flags &&& 3 = 1 → Step p s .idle s .opening ()
  | trimInterrupted (s) : Step p s .opening s (.opened true) ()
  | trimDown (s : Shared p) : 0 < s.dev.sema → Step p s .opening { s with dev := s.dev.down } .trimming ()
  | trim (s : Shared p) {d' : Dev} : scullTrim p s.dev.up false = .ok d' →
      Step p s .trimming { s with dev := d'.down } .trimmed ()
  | trimUp (s : Shared p) : Step p s .trimmed { s with dev := s.dev.up } (.opened false) ()
  | openReturns (s) (interrupted : Bool) : Step p s (.opened interrupted) s .idle ()
  | call (s) (r : Req) : Step p s .idle s (.down r) ()
  | interrupted (s) (r : Req) : Step p s (.down r) s .idle ()
  | down (s : Shared p) (r : Req) : 0 < s.dev.sema → Step p s (.down r) { s with dev := s.dev.down } (.inside r) ()
  | read (s : Shared p) (v : Vmalloc) {off : Int} {len fault : Nat} {done : Done} :
      scullRead p v s.dev.up false off len fault = .ok done →
      Step p s (.inside (.read off len fault)) { s with dev := done.dev.down } .up ()
  | write (s : Shared p) (v : Vmalloc) {off : Int} {user : List UInt8} {fault : Nat} {a : Place p} {done : Done} :
      At p off a → scullWrite p v s.dev.up false off user fault = .ok done →
      Step p s (.inside (.write off user fault)) ⟨done.dev.down, s.log ++ [⟨a, a.copied user fault⟩]⟩ .up ()
  | up (s : Shared p) : Step p s .up { s with dev := s.dev.up } .idle ()

def program (p : Params) : Program (Shared p) Pc Unit where
  step := Step p
  notify _ x := x

def loaded (p : Params) (ι : Type*) : Config (Shared p) Pc ι := ⟨⟨.started, []⟩, fun _ => .idle⟩

/-! ### What the log says about the device -/

def replay (puts : List (Put p)) : Nat → Nat → Option (List UInt8) :=
  puts.foldl (fun old put => written put.place put.bytes old) fun _ _ => none

theorem replay_snoc (puts : List (Put p)) (put : Put p) :
    replay (puts ++ [put]) = written put.place put.bytes (replay puts) := by
  rw [replay, List.foldl_append]
  rfl

theorem replay_some {puts : List (Put p)} {i j : Nat} {bytes : List UInt8} (stored : replay puts i j = some bytes) :
    ∃ put ∈ puts, i = put.place.idx ∧ j = put.place.pos := by
  induction puts using List.reverseRecOn generalizing bytes with
  | nil => cases stored
  | append_singleton puts put ih =>
    rw [replay_snoc, written] at stored
    by_cases here : i = put.place.idx ∧ j = put.place.pos
    · exact ⟨put, by simp, here⟩
    · rw [if_neg here] at stored
      obtain ⟨earlier, member, place⟩ := ih stored
      exact ⟨earlier, List.mem_append_left _ member, place⟩

/-- The device holds what the last puts of the log have made of an empty device, and these come
after the first `before` puts. -/
def Since (before : List (Put p)) (s : Shared p) : Prop :=
  ∃ earlier since, s.log = before ++ earlier ++ since ∧ Stored p s.dev (replay since)

theorem since_step {before : List (Put p)} {s s' : Shared p} {x x' : Pc} {n : Unit} (held : Since before s)
    (stepped : Step p s x s' x' n) : Since before s' := by
  obtain ⟨earlier, since, log, stored⟩ := held
  cases stepped with
  | openOther | openWriteOnly | trimInterrupted | openReturns | call | interrupted =>
    exact ⟨earlier, since, log, stored⟩
  | trimDown | down => exact ⟨earlier, since, log, stored.down⟩
  | trimUp | up => exact ⟨earlier, since, log, stored.up⟩
  | read v ran => exact ⟨earlier, since, log, (stored.up.read ran).down⟩
  | @write v off user fault a done located ran =>
    refine ⟨earlier, since ++ [⟨a, a.copied user fault⟩], ?_, ?_⟩
    · rw [log, List.append_assoc _ since]
    · rw [replay_snoc]
      exact (stored.up.write located ran).down
  | trim trimmed =>
    refine ⟨earlier ++ since, [], ?_, ?_⟩
    · rw [List.append_nil, ← List.append_assoc, log]
    · exact (stored.up.trim trimmed).1.down

theorem since_empty {s : Shared p} (held : Since [] s) (empty : s.dev.data = 0) : Since s.log s := by
  obtain ⟨_, _, _, stored⟩ := held
  refine ⟨[], [], by simp, ?_⟩
  rw [stored.none_of_null empty] at stored
  exact stored

section Runs

variable {ι : Type*} [DecidableEq ι] {c c' : Config (Shared p) Pc ι} {seen : List (Config (Shared p) Pc ι)}

theorem since_reachable (reachable : (program p).Reachable (loaded p ι) c) : Since [] c.shared := by
  refine reachable.shared_invariant ⟨[], [], rfl, stored_started⟩ ?_
  intro s x s' x' n held stepped
  exact since_step held stepped

theorem since_stretch {before : List (Put p)} (held : Since before c.shared) (stretch : (program p).Stretch c seen c') :
    Since before c'.shared := by
  induction stretch with
  | refl => exact held
  | step t _ stepped ih => exact since_step ih stepped

theorem emptied_in_stretch {t : ι} (reachable : (program p).Reachable (loaded p ι) c) (opening : c.task t = .opening)
    (stretch : (program p).Stretch c seen c') (truncated : c'.task t = .trimmed ∨ c'.task t = .opened false) :
    ∃ e ∈ seen, e.shared.dev.data = 0 := by
  induction stretch with
  | refl =>
    rw [opening] at truncated
    rcases truncated with same | same <;> cases same
  | @step seen c' u s' x' n before stepped ih =>
    have earlier : (c'.task t = .trimmed ∨ c'.task t = .opened false) →
        ∃ e ∈ seen ++ [(program p).after c' u s' x' n], e.shared.dev.data = 0 := by
      intro was
      obtain ⟨e, member, empty⟩ := ih was
      exact ⟨e, List.mem_append_left _ member, empty⟩
    by_cases mine : t = u
    · subst u
      rw [after_same] at truncated
      generalize own : c'.task t = x at stepped earlier
      cases stepped with
      | trim trimmed =>
        obtain ⟨_, _, _, stored⟩ := since_reachable (before.reachable reachable)
        exact ⟨_, List.mem_append_right _ (List.mem_singleton_self _), (stored.up.trim trimmed).2⟩
      | trimUp => exact earlier (Or.inl rfl)
      | _ => rcases truncated with same | same <;> cases same
    · rw [after_other mine] at truncated
      exact earlier truncated

/-- An open with `O_WRONLY` whose `down_interruptible` is not interrupted has, at some moment before it
returns, emptied the device. All that is stored after that moment is what later writes put there. -/
theorem open_truncates {t : ι} (reachable : (program p).Reachable (loaded p ι) c) (opening : c.task t = .opening)
    (stretch : (program p).Stretch c seen c') (returns : c'.task t = .opened false) :
    ∃ e ∈ seen, e.shared.dev.data = 0 ∧ (∃ rest, (program p).Stretch e rest c') ∧
      ∀ later c'', (program p).Stretch e later c'' → ∃ earlier since,
        c''.shared.log = e.shared.log ++ earlier ++ since ∧
        (∀ k, c''.shared.dev.byteAt p k = flat p (replay since) k) ∧
        ∀ k b, c''.shared.dev.byteAt p k = some b → ∃ put ∈ since, put.place.block = k / p.quantum := by
  obtain ⟨e, member, empty⟩ := emptied_in_stretch reachable opening stretch (Or.inr returns)
  obtain ⟨_, rest, before, after⟩ := stretch.split member
  refine ⟨e, member, empty, ⟨rest, after⟩, ?_⟩
  intro later c'' stretch'
  have held := since_empty (since_reachable (before.reachable reachable)) empty
  obtain ⟨earlier, since, log, _, nodes, linked, stored⟩ := since_stretch held stretch'
  have bytes : ∀ k, c''.shared.dev.byteAt p k = flat p (replay since) k := by
    intro k
    rw [byteAt_eq linked, stored]
  refine ⟨earlier, since, log, bytes, ?_⟩
  intro k b found
  rw [bytes, flat] at found
  obtain ⟨quantum, present, _⟩ := Option.bind_eq_some_iff.mp found
  obtain ⟨put, member, place⟩ := replay_some present
  exact ⟨put, member, ((put.place.block_iff (k / p.quantum)).mp place).symm⟩

end Runs

/-! ### Task 0 writes, task 1 opens -/

theorem down_up (d : Dev) : d.down.up = d := by
  simp only [Dev.down, Dev.up, Int.sub_add_cancel]

theorem one_byte_written :
    ∃ s : Shared .loaded, (program .loaded).Reachable (loaded .loaded (Fin 2)) ⟨s, fun _ => .idle⟩ ∧
      s.dev.sema = 1 ∧ s.dev.data ≠ 0 ∧ s.dev.byteAt .loaded 0 = some 97 := by
  have inRange : 0 < (2 ^ 31 - 1) * (Params.loaded.quantum * Params.loaded.qset) := by decide
  have result : (scullWrite .loaded upwards Dev.started.down.up false (0 : Nat) [97] 0).map
      (fun done => (done.dev.sema, decide (done.dev.data ≠ 0), done.dev.byteAt .loaded 0)) =
        .ok (1, true, some 97) := by
    decide +kernel
  cases ran : scullWrite .loaded upwards Dev.started.down.up false (0 : Nat) [97] 0 with
  | error e =>
    rw [ran] at result
    cases result
  | ok done =>
    rw [ran] at result
    obtain ⟨sema, kept⟩ := Prod.mk.inj (Except.ok.inj result)
    obtain ⟨data, byte⟩ := Prod.mk.inj kept
    have alone : (program .loaded).Solo ⟨.started, []⟩ .idle ⟨done.dev.down.up, [_]⟩ .idle :=
      .step () (Step.call _ (.write (0 : Nat) [97] 0)) (fun _ => rfl) <|
      .step () (Step.down _ _ (by decide)) (fun _ => rfl) <|
      .step () (Step.write _ upwards (at_placeOf inRange) ran) (fun _ => rfl) <|
      .step () (Step.up _) (fun _ => rfl) (.refl _ _)
    have start : (program .loaded).Reachable (loaded .loaded (Fin 2)) _ := .init
    obtain ⟨⟨s, task⟩, reachable, rfl, own, others⟩ := start.solo 0 alone
    have idle : task = fun _ => .idle := by
      funext t
      by_cases zero : t = 0
      · rw [zero]
        exact own
      · exact others t zero
    rw [idle] at reachable
    refine ⟨_, reachable, ?_⟩
    rw [down_up]
    exact ⟨sema, of_decide_eq_true data, byte⟩

theorem open_after_write_truncates :
    ∃ (c c' : Config (Shared .loaded) Pc (Fin 2)) (seen : List (Config (Shared .loaded) Pc (Fin 2))),
      (program .loaded).Reachable (loaded .loaded (Fin 2)) c ∧ (program .loaded).Stretch c seen c' ∧
      c.task 1 = .opening ∧ c'.task 1 = .opened false ∧ c.shared.dev.byteAt .loaded 0 = some 97 ∧
      ∃ e ∈ seen, e.shared.dev.data = 0 := by
  obtain ⟨s, reachable, sema, _, byte⟩ := one_byte_written
  obtain ⟨_, _, _, _, nodes, linked, _⟩ := since_reachable reachable
  obtain ⟨d', trimmed, _⟩ := scullTrim_spec linked.down.up
  have opening := reachable.step 1 (Step.openWriteOnly _ (show 1 &&& 3 = 1 by decide))
  have taken : (program .loaded).Stretch
      ((program .loaded).after ⟨s, fun _ => .idle⟩ (1 : Fin 2) s .opening ()) _ _ :=
    Program.Stretch.refl.step 1 (Step.trimDown _ (by simp [sema]))
  have call := (taken.step 1 (Step.trim _ trimmed)).step 1 (Step.trimUp _)
  obtain ⟨e, member, empty, _⟩ := open_truncates (t := 1) opening rfl call rfl
  exact ⟨_, _, _, opening, call, rfl, rfl, byte, e, member, empty⟩

/-- Task 0 reads and holds the semaphore. The open of task 1 is interrupted and returns 0, and the byte
that was written before it is still there. -/
theorem interrupted_open_keeps_data :
    ∃ (c c' : Config (Shared .loaded) Pc (Fin 2)) (seen : List (Config (Shared .loaded) Pc (Fin 2))),
      (program .loaded).Reachable (loaded .loaded (Fin 2)) c ∧ (program .loaded).Stretch c seen c' ∧
      seen.map (fun e => e.task 1) = [.opening, .opened true] ∧ c'.shared.log = c.shared.log ∧
      ∀ e ∈ seen, e.shared.dev.sema = 0 ∧ e.shared.dev.data ≠ 0 ∧ e.shared.dev.byteAt .loaded 0 = some 97 := by
  obtain ⟨s, reachable, sema, data, byte⟩ := one_byte_written
  obtain ⟨_, _, _, _, nodes, linked, _⟩ := since_reachable reachable
  have called := reachable.step 0 (Step.call _ (.read (0 : Nat) 1 0))
  have held := called.step 0 (Step.down _ _ (by simp [sema]))
  have opening := held.step 1 (Step.openWriteOnly _ (show 1 &&& 3 = 1 by decide))
  have unchanged : s.dev.down.sema = 0 ∧ s.dev.down.data ≠ 0 ∧ s.dev.down.byteAt .loaded 0 = some 97 := by
    refine ⟨by simp only [Dev.down, sema, Int.sub_self], data, ?_⟩
    rw [byteAt_eq linked.down, ← byteAt_eq linked, byte]
  refine ⟨_, _, _, opening, Program.Stretch.refl.step 1 (Step.trimInterrupted _), rfl, rfl, ?_⟩
  intro e member
  rcases List.mem_cons.mp member with rfl | last
  · exact unchanged
  · cases List.mem_singleton.mp last
    exact unchanged

end Ldd3.Scull.Tasks
