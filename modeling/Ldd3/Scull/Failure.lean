import Ldd3.Scull.Alloc

/-!
A `vmalloc` that fails inside `scull_read` or `scull_write`. The call is meant to leave with an error
and the device intact. It never does: the test after each `vmalloc` is `IS_ERR`, which `NULL` passes,
and the `memset` that follows faults on `NULL` with the semaphore taken.

The first `vmalloc` to fail is the one with number `k`, counted over the life of the device. Up to it
the answers are those of another `vmalloc`, with which the call comes past that number, if it comes
back at all.
-/

namespace Ldd3.Scull

open Base.Runs

variable {p : Params}

/-- The devices that calls can leave behind, with any `vmalloc` and at any offset. -/
inductive Reached (p : Params) : Dev → Prop where
  | started : Reached p Dev.started
  | read {d : Dev} {r : Done} (v : Vmalloc) (signal : Bool) (off : Int) (len fault : Nat) :
      Reached p d → scullRead p v d signal off len fault = .ok r → Reached p r.dev
  | write {d : Dev} {r : Done} (v : Vmalloc) (signal : Bool) (off : Int) (user : List UInt8) (fault : Nat) :
      Reached p d → scullWrite p v d signal off user fault = .ok r → Reached p r.dev
  | trim {d d' : Dev} (signal : Bool) : Reached p d → scullTrim p d signal = .ok d' → Reached p d'

/-! ### `NULL` is never a block -/

section Null

variable {d d' : Dev}

theorem vfree_null {a : Addr} (null : 0 ∉ d.heap) (freed : d.vfree a = .ok d') : 0 ∉ d'.heap := by
  unfold Dev.vfree at freed
  split at freed
  · cases freed
    exact null
  · split at freed
    · cases freed
      exact fun live => null (Finmap.mem_erase.mp live).2
    · cases freed

theorem trimSlots_null {n i : Nat} {data : Addr} (null : 0 ∉ d.heap)
    (trimmed : trimSlots n d data i = .ok d') : 0 ∉ d'.heap := by
  induction n generalizing d i with
  | zero =>
    cases trimmed
    exact null
  | succ n ih =>
    obtain ⟨ptr, _, trimmed⟩ := bind_ok trimmed
    obtain ⟨d₁, freed, trimmed⟩ := bind_ok trimmed
    obtain ⟨d₂, cleared, trimmed⟩ := bind_ok trimmed
    have null₁ : 0 ∉ d₁.heap := by
      unfold trimQuantum at freed
      split at freed
      · exact vfree_null null freed
      · cases freed
        exact null
    exact ih (setSlot_stored null₁ cleared).1 trimmed

theorem trimData_null {qtr data : Addr} (null : 0 ∉ d.heap) (trimmed : trimData p d qtr data = .ok d') :
    0 ∉ d'.heap := by
  unfold trimData at trimmed
  split at trimmed
  · obtain ⟨d₁, slots, trimmed⟩ := bind_ok trimmed
    obtain ⟨d₂, freed, trimmed⟩ := bind_ok trimmed
    exact (setData_stored (vfree_null (trimSlots_null null slots) freed) trimmed).1
  · cases trimmed
    exact null

theorem trimLoop_null {n : Nat} {qtr : Addr} (null : 0 ∉ d.heap) (trimmed : trimLoop p n d qtr = .ok d') :
    0 ∉ d'.heap := by
  induction n generalizing d qtr with
  | zero =>
    unfold trimLoop at trimmed
    split at trimmed
    · cases trimmed
      exact null
    · cases trimmed
  | succ n ih =>
    unfold trimLoop at trimmed
    split at trimmed
    · cases trimmed
      exact null
    · obtain ⟨⟨next, d₁⟩, body, trimmed⟩ := bind_ok trimmed
      obtain ⟨⟨_, data⟩, _, body⟩ := bind_ok body
      obtain ⟨d₂, emptied, body⟩ := bind_ok body
      obtain ⟨⟨_, _⟩, _, body⟩ := bind_ok body
      obtain ⟨d₃, freed, body⟩ := bind_ok body
      cases body
      exact ih (vfree_null (trimData_null null emptied) freed) trimmed

theorem scullTrim_null {signal : Bool} (null : 0 ∉ d.heap) (trimmed : scullTrim p d signal = .ok d') :
    0 ∉ d'.heap := by
  unfold scullTrim at trimmed
  split at trimmed
  · cases trimmed
    exact null
  · obtain ⟨d₁, looped, trimmed⟩ := bind_ok trimmed
    have emptied : 0 ∉ d₁.heap := trimLoop_null (d := d.down) null looped
    cases trimmed
    exact emptied

/-! ### What is stored -/

/-- The device is a list of blocks that holds `bytes`, by node and slot. -/
structure Stored (p : Params) (d : Dev) (bytes : Nat → Nat → Option (List UInt8)) : Prop where
  null : 0 ∉ d.heap
  linked : ∃ nodes : List (NodeRep p), Linked d nodes ∧ contents nodes = bytes

variable {v : Vmalloc} {off : Int} {fault : Nat} {r : Done} {bytes : Nat → Nat → Option (List UInt8)}

theorem stored_started : Stored p Dev.started fun _ _ => none :=
  ⟨Finmap.notMem_empty, [], linked_started, rfl⟩

theorem Stored.down (stored : Stored p d bytes) : Stored p d.down bytes := by
  obtain ⟨null, nodes, linked, same⟩ := stored
  exact ⟨null, nodes, linked.down, same⟩

theorem Stored.up (stored : Stored p d bytes) : Stored p d.up bytes := by
  obtain ⟨null, nodes, linked, same⟩ := stored
  exact ⟨null, nodes, linked.up, same⟩

theorem Stored.none_of_null (stored : Stored p d bytes) (empty : d.data = 0) : bytes = fun _ _ => none := by
  obtain ⟨_, nodes, linked, rfl⟩ := stored
  cases nodes with
  | nil => rfl
  | cons nd rest => exact absurd (linked.head.symm.trans empty) nd.nonnull

theorem Stored.read {len : Nat} (stored : Stored p d bytes) (ran : scullRead p v d false off len fault = .ok r) :
    Stored p r.dev bytes := by
  obtain ⟨null, nodes, linked, rfl⟩ := stored
  refine ⟨(scullRead_follows v.follows_total null trivial ran).2.1, ?_⟩
  obtain ⟨a, located⟩ := scullRead_place null ran
  obtain ⟨curset, d₁, followed, left⟩ := scullRead_walk (scullRead_total null ran)
  obtain ⟨walked, rest, nd, d₂, same, linked₂, _, _, kept, _⟩ := follow_place v.total_succeeds linked a
  rw [located.index, same] at followed
  cases followed
  rw [left]
  exact ⟨_, linked₂.up, kept⟩

theorem Stored.write {user : List UInt8} {a : Place p} (stored : Stored p d bytes) (located : At p off a)
    (ran : scullWrite p v d false off user fault = .ok r) :
    Stored p r.dev (written a (a.copied user fault) bytes) := by
  obtain ⟨null, nodes, linked, rfl⟩ := stored
  refine ⟨(scullWrite_follows v.follows_total null trivial ran).2.1, ?_⟩
  obtain ⟨nodes', d', linked', _, changed, same⟩ := scullWrite_spec v.total_succeeds linked located user fault
  rw [scullWrite_total null ran] at same
  cases same
  rw [writeAnswer_dev]
  exact ⟨nodes', linked', changed⟩

theorem Stored.trim (stored : Stored p d bytes) (ran : scullTrim p d false = .ok d') :
    Stored p d' (fun _ _ => none) ∧ d'.data = 0 := by
  obtain ⟨null, nodes, linked, _⟩ := stored
  obtain ⟨d₁, same, linked', _⟩ := scullTrim_spec linked
  rw [ran] at same
  cases same
  exact ⟨⟨scullTrim_null null ran, [], linked', rfl⟩, linked'.head⟩

theorem Reached.stored (reached : Reached p d) : ∃ bytes, Stored p d bytes := by
  induction reached with
  | started => exact ⟨_, stored_started⟩
  | read v signal off len fault _ ran ih =>
    obtain ⟨bytes, stored⟩ := ih
    cases signal with
    | true => cases ran; exact ⟨bytes, stored⟩
    | false => exact ⟨bytes, stored.read ran⟩
  | write v signal off user fault _ ran ih =>
    obtain ⟨bytes, stored⟩ := ih
    cases signal with
    | true => cases ran; exact ⟨bytes, stored⟩
    | false =>
      obtain ⟨a, located⟩ := scullWrite_place stored.null ran
      exact ⟨_, stored.write located ran⟩
  | trim signal _ ran ih =>
    obtain ⟨bytes, stored⟩ := ih
    cases signal with
    | true => cases ran; exact ⟨bytes, stored⟩
    | false => exact ⟨_, (stored.trim ran).1⟩

theorem Reached.null (reached : Reached p d) : 0 ∉ d.heap := by
  obtain ⟨bytes, stored⟩ := reached.stored
  exact stored.null

theorem Reached.linked (reached : Reached p d) : ∃ nodes : List (NodeRep p), Linked d nodes := by
  obtain ⟨bytes, _, nodes, linked, _⟩ := reached.stored
  exact ⟨nodes, linked⟩

end Null

/-! ### The first allocation to fail -/

/-- `v` answers as `w` before call number `k`, which fails. -/
structure FailsFirst (v w : Vmalloc) (k : Nat) : Prop where
  before : ∀ n h, n < k → v.answer n h = w.answer n h
  fails : ∀ h, v.answer k h = 0

def Vmalloc.failing (w : Vmalloc) (k : Nat) : Vmalloc where
  answer n h := if n = k then 0 else w.answer n h
  fresh n h nonnull := by
    by_cases here : n = k
    · rw [if_pos here] at nonnull
      exact absurd rfl nonnull
    · rw [if_neg here] at nonnull ⊢
      exact w.fresh n h nonnull
  noErr n h := by
    split
    · decide
    · exact w.noErr n h

theorem Vmalloc.failing_first (w : Vmalloc) (k : Nat) : FailsFirst (w.failing k) w k :=
  ⟨fun _ _ less => if_neg (Nat.ne_of_lt less), fun _ => if_pos rfl⟩

theorem FailsFirst.follows {v w : Vmalloc} {k : Nat} (first : FailsFirst v w k) : Follows v w (· ≤ k) := by
  have earlier : ∀ n h, n ≤ k → v.answer n h ≠ 0 → n < k := by
    intro n h bound nonnull
    refine Nat.lt_of_le_of_ne bound fun same => nonnull ?_
    rw [same]
    exact first.fails h
  exact ⟨fun n h bound nonnull => (first.before n h (earlier n h bound nonnull)).symm, earlier⟩

/-- Every later read answers as if the call had not been made. -/
def ReadsAlike (p : Params) (d d' : Dev) : Prop :=
  ∀ v : Vmalloc, (∀ n h, v.answer n h ≠ 0) → ∀ off len,
    (scullRead p v d' false off len 0).map (fun r => (r.ret, r.delivered)) =
      (scullRead p v d false off len 0).map fun r => (r.ret, r.delivered)

def FailureAtomic (p : Params) (d : Dev) (off : Int) (outcome : Except Oops Done) : Prop :=
  ∃ r, outcome = .ok r ∧ (∃ e, r.ret = .error e) ∧ r.off = off ∧ r.dev.sema = d.sema ∧
    ReadsAlike p d r.dev ∧ ∃ d', scullTrim p r.dev false = .ok d' ∧ d'.heap = ∅

/-- No call survives the failure of one of its allocations. -/
theorem allocation_failure_never_atomic {d : Dev} (reached : Reached p d) {v w : Vmalloc} {k : Nat}
    (first : FailsFirst v w k) (later : d.calls ≤ k) :
    (∀ off len fault, (∀ r, scullRead p w d false off len fault = .ok r → k < r.dev.calls) →
      ¬ FailureAtomic p d off (scullRead p v d false off len fault)) ∧
    (∀ off user fault, (∀ r, scullWrite p w d false off user fault = .ok r → k < r.dev.calls) →
      ¬ FailureAtomic p d off (scullWrite p v d false off user fault)) := by
  constructor
  · rintro off len fault needed ⟨r, ran, _⟩
    obtain ⟨same, _, bound⟩ := scullRead_follows first.follows reached.null later ran
    exact absurd (needed r same) (Nat.not_lt.mpr bound)
  · rintro off user fault needed ⟨r, ran, _⟩
    obtain ⟨same, _, bound⟩ := scullWrite_follows first.follows reached.null later ran
    exact absurd (needed r same) (Nat.not_lt.mpr bound)

/-- The quantum is the third block of a first write. -/
theorem third_allocation_fails :
    (scullWrite .loaded upwards .started false 0 [97] 0).map (fun r => r.dev.calls) = .ok 3 ∧
      ¬ FailureAtomic .loaded .started 0 (scullWrite .loaded (upwards.failing 2) .started false 0 [97] 0) := by
  have counted : (scullWrite .loaded upwards .started false 0 [97] 0).map (fun r => r.dev.calls) = .ok 3 := by
    decide +kernel
  refine ⟨counted, (allocation_failure_never_atomic .started (upwards.failing_first 2) (by decide)).2 0 [97] 0 ?_⟩
  intro r ran
  rw [ran] at counted
  have three : r.dev.calls = 3 := Except.ok.inj counted
  omega

/-- A first write whose first allocation fails: it clears the block at `NULL`. -/
theorem write_faults_at_null :
    (scullWrite .loaded (upwards.failing 0) .started false 0 [97] 0).map Done.ret = .error (.fault 0) ∧
      ¬ FailureAtomic .loaded .started 0 (scullWrite .loaded (upwards.failing 0) .started false 0 [97] 0) := by
  have faults : (scullWrite .loaded (upwards.failing 0) .started false 0 [97] 0).map Done.ret =
      .error (.fault 0) := by
    decide +kernel
  refine ⟨faults, ?_⟩
  rintro ⟨r, ran, _⟩
  rw [ran] at faults
  cases faults

end Ldd3.Scull
