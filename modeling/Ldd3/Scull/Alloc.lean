import Ldd3.Base.Runs
import Ldd3.Scull.Calls

/-!
Calls with a `vmalloc` that can fail. The code tests for an error code, which `vmalloc` never returns, so
after a failure it clears the block at `NULL`. A call that returns has therefore had a block from every
`vmalloc` it made, and is the same call with any `vmalloc` that would have given it these blocks.
-/

namespace Ldd3.Scull

open Base.Heap Base.Runs Base.Words

variable {p : Params}

/-- The same answers, with a block in place of every `NULL`. -/
def Vmalloc.total (v : Vmalloc) : Vmalloc where
  answer n h := if v.answer n h = 0 then h.above else v.answer n h
  fresh := by
    intro n h _
    split
    · exact h.above_fresh
    · rename_i nonnull
      exact v.fresh n h nonnull
  noErr := by
    intro n h
    split
    · exact h.above_noErr
    · exact v.noErr n h

theorem Vmalloc.total_succeeds (v : Vmalloc) (n : Nat) (h : Heap) : v.total.answer n h ≠ 0 := by
  show (if v.answer n h = 0 then h.above else v.answer n h) ≠ 0
  split
  · exact h.above_nonnull
  · assumption

/-- `w` gives the blocks that `v` gives, as long as the number of calls made is one that `reach` allows;
only a block from `v` leads on to the next number. -/
structure Follows (v w : Vmalloc) (reach : Nat → Prop) : Prop where
  same : ∀ n h, reach n → v.answer n h ≠ 0 → w.answer n h = v.answer n h
  next : ∀ n h, reach n → v.answer n h ≠ 0 → reach (n + 1)

theorem Vmalloc.follows_total (v : Vmalloc) : Follows v v.total fun _ => True :=
  ⟨fun _ _ _ nonnull => if_neg nonnull, fun _ _ _ _ => trivial⟩

/-! ### What an allocation that failed leaves -/

section Partial

variable {v w : Vmalloc} {reach : Nat → Prop} {d d' : Dev}

theorem Follows.vmalloc_eq (follows : Follows v w reach) (reached : reach d.calls)
    (nonnull : v.answer d.calls d.heap ≠ 0) : d.vmalloc w = d.vmalloc v := by
  rw [Dev.vmalloc, Dev.vmalloc, follows.same _ _ reached nonnull]

theorem not_mem_insert {h : Heap} {a : Addr} {b : Block} (nonnull : a ≠ 0) (null : 0 ∉ h) : 0 ∉ h.insert a b := by
  rw [Finmap.mem_insert]
  rintro (same | live)
  · exact nonnull same.symm
  · exact null live

theorem vmalloc_null (null : 0 ∉ d.heap) : 0 ∉ (d.vmalloc v).2.heap := by
  unfold Dev.vmalloc
  dsimp only
  split
  · exact null
  · rename_i nonnull
    exact not_mem_insert nonnull null

theorem qset_nonnull {a : Addr} {fields : Addr × Addr} (null : 0 ∉ d.heap) (found : d.qset a = .ok fields) :
    a ≠ 0 := by
  rintro rfl
  rw [Dev.qset, Finmap.lookup_eq_none.mpr null] at found
  cases found

/-- A store into a live block: `NULL` is still no block and no block was asked for. -/
def Dev.Stored (d d' : Dev) : Prop := 0 ∉ d'.heap ∧ d'.calls = d.calls

theorem setNext_stored {a ptr : Addr} (null : 0 ∉ d.heap) (stored : d.setNext a ptr = .ok d') : d.Stored d' := by
  obtain ⟨fields, found, ran⟩ := bind_ok stored
  cases ran
  exact ⟨not_mem_insert (qset_nonnull null found) null, rfl⟩

theorem setData_stored {a ptr : Addr} (null : 0 ∉ d.heap) (stored : d.setData a ptr = .ok d') : d.Stored d' := by
  obtain ⟨fields, found, ran⟩ := bind_ok stored
  cases ran
  exact ⟨not_mem_insert (qset_nonnull null found) null, rfl⟩

theorem store_stored {ptr : Addr} {slot : Slot} (null : 0 ∉ d.heap) (stored : d.store ptr slot = .ok d') :
    d.Stored d' := by
  cases slot with
  | head =>
    cases stored
    exact ⟨null, rfl⟩
  | next a => exact setNext_stored null stored

theorem setSlot_stored {a ptr : Addr} {i : Int} (null : 0 ∉ d.heap) (stored : d.setSlot a i ptr = .ok d') :
    d.Stored d' := by
  have nonnull : a ≠ 0 := by
    rintro rfl
    rw [Dev.setSlot, Finmap.lookup_eq_none.mpr null] at stored
    cases stored
  unfold Dev.setSlot at stored
  split at stored
  · split at stored
    · cases stored
      exact ⟨not_mem_insert nonnull null, rfl⟩
    · cases stored
  · cases stored

theorem copyIn_stored {a : Addr} {offset : Int} {xs : List UInt8} (null : 0 ∉ d.heap)
    (stored : d.copyIn a offset xs = .ok d') : d.Stored d' := by
  have nonnull : a ≠ 0 := by
    rintro rfl
    rw [Dev.copyIn, Finmap.lookup_eq_none.mpr null] at stored
    cases stored
  unfold Dev.copyIn at stored
  split at stored
  · split at stored
    · cases stored
      exact ⟨not_mem_insert nonnull null, rfl⟩
    · cases stored
  · cases stored

theorem memset_stored {a : Addr} {zeros : Block} (null : 0 ∉ d.heap) (stored : d.memset a zeros = .ok d') :
    a ≠ 0 ∧ d.Stored d' := by
  unfold Dev.memset at stored
  split at stored
  · rename_i live
    have nonnull : a ≠ 0 := fun same => null (same ▸ live)
    cases stored
    exact ⟨nonnull, not_mem_insert nonnull null, rfl⟩
  · cases stored

/-- An allocation that goes on: its block is not `NULL`, it is linked and then cleared. -/
theorem alloc_returned {α : Type} (link : Addr → Dev → Except Oops Dev) {early : Dev → α} {zeros : Block}
    {next : Dev → Except Oops α} {r : α} (null : 0 ∉ d.heap)
    (keeps : ∀ a d₁ d₂, 0 ∉ d₁.heap → link a d₁ = .ok d₂ → d₁.Stored d₂)
    (ran : (do
      let d₁ ← link (d.vmalloc v).1 (d.vmalloc v).2
      if isErr (d.vmalloc v).1 then return early d₁
      let d₂ ← d₁.memset (d.vmalloc v).1 zeros
      next d₂) = .ok r) :
    ∃ d₁ d₂, v.answer d.calls d.heap ≠ 0 ∧ link (d.vmalloc v).1 (d.vmalloc v).2 = .ok d₁ ∧
      d₁.memset (d.vmalloc v).1 zeros = .ok d₂ ∧ 0 ∉ d₂.heap ∧ d₂.calls = d.calls + 1 ∧ next d₂ = .ok r := by
  have noErr : ¬ isErr (d.vmalloc v).1 = true := Bool.eq_false_iff.mp (v.noErr d.calls d.heap)
  obtain ⟨d₁, linked, ran⟩ := bind_ok ran
  rw [if_neg noErr] at ran
  obtain ⟨d₂, cleared, ran⟩ := bind_ok ran
  obtain ⟨null₁, calls₁⟩ := keeps _ _ _ (vmalloc_null null) linked
  obtain ⟨nonnull, null₂, calls₂⟩ := memset_stored null₁ cleared
  exact ⟨d₁, d₂, nonnull, linked, cleared, null₂, calls₂.trans calls₁, ran⟩

theorem slotCells_nonnull {slot : Option (QuantumRep p)} {cell : Addr × Block} (member : cell ∈ slotCells slot) :
    cell.1 ≠ 0 := by
  cases slot with
  | none => cases member
  | some q =>
    rw [List.mem_singleton.mp member]
    exact q.nonnull

theorem arrayCells_nonnull {array : Option (ArrayRep p)} {cell : Addr × Block} (member : cell ∈ arrayCells array) :
    cell.1 ≠ 0 := by
  cases array with
  | none => cases member
  | some a =>
    rcases List.mem_cons.mp member with rfl | member
    · exact a.nonnull
    · obtain ⟨slot, _, member⟩ := List.mem_flatMap.mp member
      exact slotCells_nonnull member

theorem segment_nonnull {nodes : List (NodeRep p)} {tail : Addr} {cell : Addr × Block}
    (member : cell ∈ segment nodes tail) : cell.1 ≠ 0 := by
  induction nodes with
  | nil => cases member
  | cons nd rest ih =>
    rcases List.mem_append.mp member with own | later
    · rcases List.mem_cons.mp own with rfl | member
      · exact nd.nonnull
      · exact arrayCells_nonnull member
    · exact ih later

theorem Linked.null {nodes : List (NodeRep p)} (linked : Linked d nodes) : 0 ∉ d.heap := by
  rw [linked.holds.mem_iff, List.mem_map]
  rintro ⟨cell, member, null⟩
  exact segment_nonnull member null

/-! ### Calls that return -/

theorem followLoop_follows (follows : Follows v w reach) {n : Nat} {qtr : Slot} {cur : Addr} {r : Addr × Dev}
    (null : 0 ∉ d.heap) (reached : reach d.calls) (ran : followLoop v n d qtr cur = .ok r) :
    followLoop w n d qtr cur = .ok r ∧ 0 ∉ r.2.heap ∧ reach r.2.calls := by
  induction n generalizing d qtr cur with
  | zero =>
    cases ran
    exact ⟨rfl, null, reached⟩
  | succ n ih =>
    rw [followLoop] at ran ⊢
    obtain ⟨ptr, loaded, ran⟩ := bind_ok ran
    simp only [loaded, bind, Except.bind]
    by_cases absent : ptr = 0
    · rw [if_pos absent] at ran ⊢
      obtain ⟨d₁, d₂, nonnull, stored, cleared, null₂, calls₂, ran⟩ :=
        alloc_returned (fun a d => d.store a qtr) null (fun _ _ _ => store_stored) ran
      have noErr : isErr (d.vmalloc v).1 = false := v.noErr d.calls d.heap
      simp only [follows.vmalloc_eq reached nonnull, stored, noErr, cleared, Bool.false_eq_true, if_false]
      exact ih null₂ (calls₂ ▸ follows.next _ _ reached nonnull) ran
    · rw [if_neg absent] at ran ⊢
      exact ih null reached ran

theorem ensureData_follows (follows : Follows v w reach) {qtr : Addr} {r : Option Addr × Dev} (null : 0 ∉ d.heap)
    (reached : reach d.calls) (ran : ensureData p v d qtr = .ok r) :
    ensureData p w d qtr = .ok r ∧ 0 ∉ r.2.heap ∧ reach r.2.calls := by
  rw [ensureData] at ran ⊢
  obtain ⟨⟨next, data⟩, node, ran⟩ := bind_ok ran
  simp only [node, bind, Except.bind]
  by_cases absent : data = 0
  · simp only [if_pos absent] at ran ⊢
    obtain ⟨d₁, d₂, nonnull, stored, cleared, null₂, calls₂, ran⟩ :=
      alloc_returned (fun a d => d.setData qtr a) null (fun _ _ _ => setData_stored) ran
    have noErr : isErr (d.vmalloc v).1 = false := v.noErr d.calls d.heap
    simp only [follows.vmalloc_eq reached nonnull, stored, noErr, cleared, Bool.false_eq_true, if_false]
    cases ran
    exact ⟨rfl, null₂, calls₂ ▸ follows.next _ _ reached nonnull⟩
  · simp only [if_neg absent] at ran ⊢
    cases ran
    exact ⟨rfl, null, reached⟩

theorem ensureQuantum_follows (follows : Follows v w reach) {data : Addr} {pos : Int} {r : Option Addr × Dev}
    (null : 0 ∉ d.heap) (reached : reach d.calls) (ran : ensureQuantum p v d data pos = .ok r) :
    ensureQuantum p w d data pos = .ok r ∧ 0 ∉ r.2.heap ∧ reach r.2.calls := by
  rw [ensureQuantum] at ran ⊢
  obtain ⟨ptr, loaded, ran⟩ := bind_ok ran
  simp only [loaded, bind, Except.bind]
  by_cases absent : ptr = 0
  · simp only [if_pos absent] at ran ⊢
    obtain ⟨d₁, d₂, nonnull, stored, cleared, null₂, calls₂, ran⟩ :=
      alloc_returned (fun a d => d.setSlot data pos a) null (fun _ _ _ => setSlot_stored) ran
    have noErr : isErr (d.vmalloc v).1 = false := v.noErr d.calls d.heap
    simp only [follows.vmalloc_eq reached nonnull, stored, noErr, cleared, Bool.false_eq_true, if_false]
    cases ran
    exact ⟨rfl, null₂, calls₂ ▸ follows.next _ _ reached nonnull⟩
  · simp only [if_neg absent] at ran ⊢
    cases ran
    exact ⟨rfl, null, reached⟩

theorem scullFollow_follows (follows : Follows v w reach) {idx : Int} {r : Addr × Dev} (null : 0 ∉ d.heap)
    (reached : reach d.calls) (ran : scullFollow v d idx = .ok r) :
    scullFollow w d idx = .ok r ∧ 0 ∉ r.2.heap ∧ reach r.2.calls := by
  unfold scullFollow at ran ⊢
  split at ran
  · cases ran
  · rename_i ends
    rw [if_neg ends]
    exact followLoop_follows follows null reached ran

/-- Every way out of a read leaves the device as the walk left it. -/
theorem scullRead_walk {off : Int} {len fault : Nat} {r : Done}
    (ran : scullRead p v d false off len fault = .ok r) :
    ∃ curset d₁, scullFollow v d.down (p.index off) = .ok (curset, d₁) ∧ r.dev = d₁.up := by
  simp only [scullRead, Bool.false_eq_true, if_false] at ran
  obtain ⟨⟨curset, d₁⟩, followed, ran⟩ := bind_ok ran
  refine ⟨curset, d₁, followed, ?_⟩
  simp only at ran
  by_cases err : isErr curset = true
  · rw [if_pos err] at ran
    cases ran
    rfl
  · rw [if_neg err] at ran
    obtain ⟨⟨next, data⟩, _, ran⟩ := bind_ok ran
    simp only at ran
    split at ran
    · cases ran
      rfl
    · obtain ⟨ptr, _, ran⟩ := bind_ok ran
      split at ran
      · cases ran
        rfl
      · obtain ⟨bytes, _, ran⟩ := bind_ok ran
        split at ran <;> cases ran <;> rfl

theorem scullRead_follows (follows : Follows v w reach) {off : Int} {len fault : Nat} {r : Done} (null : 0 ∉ d.heap)
    (reached : reach d.calls) (ran : scullRead p v d false off len fault = .ok r) :
    scullRead p w d false off len fault = .ok r ∧ 0 ∉ r.dev.heap ∧ reach r.dev.calls := by
  obtain ⟨curset, d₁, followed, left⟩ := scullRead_walk ran
  obtain ⟨same, null₁, reached₁⟩ := scullFollow_follows follows (d := d.down) null reached followed
  rw [left]
  refine ⟨?_, null₁, reached₁⟩
  simp only [scullRead, Bool.false_eq_true, if_false, followed] at ran
  simp only [scullRead, Bool.false_eq_true, if_false, same]
  exact ran

theorem scullWrite_follows (follows : Follows v w reach) {off : Int} {user : List UInt8} {fault : Nat} {r : Done}
    (null : 0 ∉ d.heap) (reached : reach d.calls) (ran : scullWrite p v d false off user fault = .ok r) :
    scullWrite p w d false off user fault = .ok r ∧ 0 ∉ r.dev.heap ∧ reach r.dev.calls := by
  simp only [scullWrite, Bool.false_eq_true, if_false] at ran ⊢
  obtain ⟨⟨qtr, d₁⟩, followed, ran⟩ := bind_ok ran
  obtain ⟨followed, null₁, reached₁⟩ := scullFollow_follows follows (d := d.down) null reached followed
  rw [followed]
  simp only [bind, Except.bind]
  by_cases err : isErr qtr = true
  · rw [if_pos err] at ran ⊢
    cases ran
    exact ⟨rfl, null₁, reached₁⟩
  · rw [if_neg err] at ran ⊢
    by_cases outside : toU64 (p.pos off) ≥ p.qset
    · rw [if_pos outside] at ran ⊢
      cases ran
      exact ⟨rfl, null₁, reached₁⟩
    · rw [if_neg outside] at ran ⊢
      obtain ⟨⟨data, d₂⟩, ensured, ran⟩ := bind_ok ran
      obtain ⟨ensured, null₂, reached₂⟩ := ensureData_follows follows null₁ reached₁ ensured
      rw [ensured]
      cases data with
      | none =>
        cases ran
        exact ⟨rfl, null₂, reached₂⟩
      | some data =>
        obtain ⟨⟨ptr, d₃⟩, found, ran⟩ := bind_ok ran
        obtain ⟨found, null₃, reached₃⟩ := ensureQuantum_follows follows null₂ reached₂ found
        simp only [found]
        cases ptr with
        | none =>
          cases ran
          exact ⟨rfl, null₃, reached₃⟩
        | some ptr =>
          refine ⟨ran, ?_⟩
          obtain ⟨d₄, copied, ran⟩ := bind_ok ran
          obtain ⟨null₄, calls₄⟩ := copyIn_stored null₃ copied
          have left : r.dev = d₄.up := by
            split at ran <;> cases ran <;> rfl
          rw [left]
          exact ⟨null₄, calls₄ ▸ reached₃⟩

theorem scullRead_total {off : Int} {len fault : Nat} {r : Done} (null : 0 ∉ d.heap)
    (ran : scullRead p v d false off len fault = .ok r) : scullRead p v.total d false off len fault = .ok r :=
  (scullRead_follows v.follows_total null trivial ran).1

theorem scullWrite_total {off : Int} {user : List UInt8} {fault : Nat} {w : Done} (null : 0 ∉ d.heap)
    (ran : scullWrite p v d false off user fault = .ok w) : scullWrite p v.total d false off user fault = .ok w :=
  (scullWrite_follows v.follows_total null trivial ran).1

/-! ### Where a call that returns has been -/

/-- The largest index hangs the walk, and a negative one ends it at `NULL`. -/
theorem place_of_follow {off : Int} {curset : Addr} (followed : scullFollow v d (p.index off) = .ok (curset, d'))
    (nonnull : curset ≠ 0) : ∃ a : Place p, At p off a := by
  unfold scullFollow at followed
  split at followed
  · cases followed
  · rename_i notLast
    refine exists_place ?_ notLast
    by_contra negative
    have none : (p.index off + 1).toNat = 0 := by omega
    rw [none] at followed
    cases followed
    exact nonnull rfl

theorem isErr_nonnull {a : Addr} (err : isErr a = true) : a ≠ 0 := by
  rintro rfl
  exact absurd err (by decide)

theorem scullRead_place {off : Int} {len fault : Nat} {r : Done} (null : 0 ∉ d.heap)
    (ran : scullRead p v d false off len fault = .ok r) : ∃ a : Place p, At p off a := by
  simp only [scullRead, Bool.false_eq_true, if_false] at ran
  obtain ⟨⟨curset, d₁⟩, followed, ran⟩ := bind_ok ran
  obtain ⟨_, null₁, _⟩ := scullFollow_follows v.follows_total (d := d.down) null trivial followed
  refine place_of_follow followed ?_
  simp only at ran
  by_cases err : isErr curset = true
  · exact isErr_nonnull err
  · rw [if_neg err] at ran
    obtain ⟨fields, found, _⟩ := bind_ok ran
    exact qset_nonnull null₁ found

theorem scullWrite_place {off : Int} {user : List UInt8} {fault : Nat} {r : Done} (null : 0 ∉ d.heap)
    (ran : scullWrite p v d false off user fault = .ok r) : ∃ a : Place p, At p off a := by
  simp only [scullWrite, Bool.false_eq_true, if_false] at ran
  obtain ⟨⟨qtr, d₁⟩, followed, ran⟩ := bind_ok ran
  obtain ⟨_, null₁, _⟩ := scullFollow_follows v.follows_total (d := d.down) null trivial followed
  refine place_of_follow followed ?_
  simp only at ran
  by_cases err : isErr qtr = true
  · exact isErr_nonnull err
  · have inside : ¬ toU64 (p.pos off) ≥ p.qset := by
      rw [p.pos_eq, toU64_small (Nat.lt_trans (p.slot_lt off) p.qset_small)]
      exact Nat.not_le.mpr (p.slot_lt off)
    rw [if_neg err, if_neg inside] at ran
    obtain ⟨⟨data, d₂⟩, ensured, _⟩ := bind_ok ran
    obtain ⟨fields, found, _⟩ := bind_ok ensured
    exact qset_nonnull null₁ found

end Partial

/-! ### Reads that do not allocate -/

/-- A walk that stays on the list does not allocate. -/
theorem followLoop_present {d : Dev} {walked rest : List (NodeRep p)} (linked : Linked d (walked ++ rest)) {n : Nat}
    (enough : n ≤ rest.length) (v w : Vmalloc) (cur : Addr) :
    followLoop v n d (slotAfter walked) cur = followLoop w n d (slotAfter walked) cur := by
  have chain := linked_iff_chain.mp linked
  rw [List.map_append] at chain
  have present : n ≤ (rest.map NodeRep.qset).length := by rwa [List.length_map]
  rw [slotAfter_qset]
  exact (followLoop_walks v chain present 0 cur).trans (followLoop_walks w chain present 0 cur).symm

theorem scullRead_present {d : Dev} {nodes : List (NodeRep p)} (linked : Linked d nodes) {off : Int} {a : Place p}
    (located : At p off a) (present : a.idx < nodes.length) (v w : Vmalloc) (len fault : Nat) :
    scullRead p v d false off len fault = scullRead p w d false off len fault := by
  have ahead : Linked d.down ([] ++ nodes) := linked.down
  have followed : scullFollow v d.down (p.index off) = scullFollow w d.down (p.index off) := by
    have steps : ((a.idx : Int) + 1).toNat = a.idx + 1 := rfl
    rw [located.index, scullFollow, scullFollow, steps]
    rw [show Slot.head = slotAfter ([] : List (NodeRep p)) from rfl, followLoop_present ahead present v w]
  simp only [scullRead, followed]

end Ldd3.Scull
