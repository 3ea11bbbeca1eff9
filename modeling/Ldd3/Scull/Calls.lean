import Ldd3.Scull.Tree

/-!
`scull_read` and `scull_write` on a linked device. Both find a quantum by the node, slot and byte that
they compute from the offset with `int` variables. A `Place` is such a triple within its bounds;
at a place the two calls do to the stored bytes what they say, whatever offset led there.
-/

namespace Ldd3.Scull

open Base.Heap Base.Words

variable {p : Params}

/-! ### The computed triple -/

theorem Params.size_eq (p : Params) : p.size = p.quantum * p.qset :=
  Nat.mod_eq_of_lt (Nat.lt_trans p.small (by decide))

theorem Params.size_pos (p : Params) : 0 < p.size := by
  rw [p.size_eq]
  exact Nat.mul_pos p.quantum_pos p.qset_pos

theorem Params.size_small (p : Params) : p.size < 2 ^ 31 := by
  rw [p.size_eq]
  exact p.small

theorem Params.quantum_small (p : Params) : p.quantum < 2 ^ 31 :=
  Nat.lt_of_le_of_lt (Nat.le_mul_of_pos_right _ p.qset_pos) p.small

theorem Params.qset_small (p : Params) : p.qset < 2 ^ 31 :=
  Nat.lt_of_le_of_lt (Nat.le_mul_of_pos_left _ p.quantum_pos) p.small

theorem toInt32_small {n : Nat} (small : n < 2 ^ 31) : toInt32 n = n :=
  toInt32_of_range (by omega) (by omega)

theorem toU64_small {n : Nat} (small : n < 2 ^ 31) : toU64 (n : Int) = n := by
  rw [toU64_of_range (by omega) (by omega), Int.toNat_natCast]

theorem Params.res_eq (p : Params) (off : Int) : p.res off = (toU64 off % p.size : Nat) :=
  toInt32_small (Nat.lt_trans (Nat.mod_lt _ p.size_pos) p.size_small)

theorem Params.toU64_res (p : Params) (off : Int) : toU64 (p.res off) = toU64 off % p.size := by
  rw [p.res_eq, toU64_small (Nat.lt_trans (Nat.mod_lt _ p.size_pos) p.size_small)]

theorem Params.slot_lt (p : Params) (off : Int) : toU64 off % p.size / p.quantum < p.qset := by
  apply Nat.div_lt_of_lt_mul
  rw [← p.size_eq]
  exact Nat.mod_lt _ p.size_pos

theorem Params.pos_eq (p : Params) (off : Int) : p.pos off = (toU64 off % p.size / p.quantum : Nat) := by
  rw [Params.pos, p.toU64_res, toInt32_small (Nat.lt_trans (p.slot_lt off) p.qset_small)]

theorem Params.offset_eq (p : Params) (off : Int) : p.offset off = (toU64 off % p.size % p.quantum : Nat) := by
  rw [Params.offset, p.toU64_res, toInt32_small (Nat.lt_trans (Nat.mod_lt _ p.quantum_pos) p.quantum_small)]

/-- Node, slot and byte. -/
structure Place (p : Params) where
  idx : Nat
  pos : Nat
  byte : Nat
  idx_lt : idx < 2 ^ 31 - 1
  pos_lt : pos < p.qset
  byte_lt : byte < p.quantum

/-- The bytes from the place to the end of its quantum. -/
def Place.room (a : Place p) : Nat := p.quantum - a.byte

structure At (p : Params) (off : Int) (a : Place p) : Prop where
  index : p.index off = a.idx
  pos : p.pos off = a.pos
  offset : p.offset off = a.byte

theorem exists_place {off : Int} (low : 0 ≤ p.index off) (notLast : p.index off ≠ 2 ^ 31 - 1) :
    ∃ a : Place p, At p off a := by
  have high : p.index off < 2 ^ 31 := (toInt32_range _).2
  obtain ⟨n, index⟩ := Int.eq_ofNat_of_zero_le low
  have bound : n < 2 ^ 31 - 1 := by omega
  exact ⟨⟨n, _, _, bound, p.slot_lt off, Nat.mod_lt _ p.quantum_pos⟩, ⟨index, p.pos_eq off, p.offset_eq off⟩⟩

theorem Params.count_eq {off : Int} {byte : Nat} (offset : p.offset off = byte) (inside : byte < p.quantum)
    (len : Nat) : p.count off len = (min len (p.quantum - byte) : Nat) := by
  have small := p.quantum_small
  rw [Params.count, offset, toU64_small (by omega)]
  rw [show ((p.quantum : Int) - (byte : Nat)) = (p.quantum - byte : Nat) by omega, toU64_small (by omega)]
  exact toInt32_small (by omega)

theorem At.count {off : Int} {a : Place p} (located : At p off a) (len : Nat) :
    p.count off len = (min len a.room : Nat) := Params.count_eq located.offset a.byte_lt len

theorem Place.byte_add_le (a : Place p) (len : Nat) : a.byte + min len a.room ≤ p.quantum := by
  have inside := a.byte_lt
  unfold Place.room
  omega

theorem Place.toU64_count (a : Place p) (len : Nat) : toU64 (min len a.room : Nat) = min len a.room := by
  have small := p.quantum_small
  apply toU64_small
  unfold Place.room
  omega

theorem At.toU64_pos {off : Int} {a : Place p} (located : At p off a) : toU64 (p.pos off) = a.pos := by
  rw [located.pos, toU64_small (Nat.lt_trans a.pos_lt p.qset_small)]

/-! ### What a call does -/

/-- What a read returns when quantum `stored` is at its place. -/
def readAnswer (a : Place p) (off : Int) (len : Nat) (d : Dev) : Option (List UInt8) → Done
  | none => ⟨.error .EFAULT, [], off, d, []⟩
  | some bytes => ⟨.ok (min len a.room : Nat), (bytes.drop a.byte).take (min len a.room),
      toInt64 (off + (min len a.room : Nat)), d, [(a.pos : Int)]⟩

/-- What the bytes at node `i` and slot `j` are after `xs` is written at the place. -/
def written (a : Place p) (xs : List UInt8) (old : Nat → Nat → Option (List UInt8)) (i j : Nat) :
    Option (List UInt8) :=
  if i = a.idx ∧ j = a.pos then
    some (overwrite ((old a.idx a.pos).getD (List.replicate p.quantum 0)) a.byte xs)
  else old i j

/-- The bytes that reach the quantum when `fault` of them are missed: zeros stand for those. -/
def Place.copied (a : Place p) (user : List UInt8) (fault : Nat) : List UInt8 :=
  let c := min user.length a.room
  user.take (c - min fault c) ++ List.replicate (min fault c) 0

/-- What a write returns. -/
def writeAnswer (a : Place p) (off : Int) (user : List UInt8) (fault : Nat) (d : Dev) : Done :=
  let c := min user.length a.room
  if min fault c ≠ 0 then ⟨.error .EAGAIN, [], off, d, [(a.pos : Int), a.pos + 1]⟩
  else ⟨.ok c, [], toInt64 (off + c), d, [(a.pos : Int), a.pos + 1]⟩

theorem Place.copied_length (a : Place p) (user : List UInt8) (fault : Nat) :
    (a.copied user fault).length = min user.length a.room := by
  simp only [Place.copied, List.length_append, List.length_take, List.length_replicate]
  omega

theorem Place.copied_le (a : Place p) (user : List UInt8) (fault : Nat) :
    a.byte + (a.copied user fault).length ≤ p.quantum := by
  rw [a.copied_length]
  exact a.byte_add_le user.length

theorem writeAnswer_dev (a : Place p) (off : Int) (user : List UInt8) (fault : Nat) (d : Dev) :
    (writeAnswer a off user fault d).dev = d := by
  unfold writeAnswer
  dsimp only
  split <;> rfl

theorem Place.copied_zero (a : Place p) (user : List UInt8) :
    a.copied user 0 = user.take (min user.length a.room) := by
  simp [Place.copied]

/-! ### The two calls -/

theorem Linked.down {d : Dev} {nodes : List (NodeRep p)} (linked : Linked d nodes) : Linked d.down nodes :=
  ⟨linked.head, linked.holds⟩

theorem Linked.up {d : Dev} {nodes : List (NodeRep p)} (linked : Linked d nodes) : Linked d.up nodes :=
  ⟨linked.head, linked.holds⟩

theorem fill_same {nd : NodeRep p} {a : ArrayRep p} (array : nd.array = some a) : nd.fill a = nd := by
  rw [NodeRep.fill, ← array]

theorem quantumAt_set {nd : NodeRep p} {a : ArrayRep p} {pos : Nat} (bound : pos < p.qset) (q : QuantumRep p)
    (j : Nat) :
    (nd.fill (a.set pos q)).quantumAt j = if j = pos then some q.bytes else (nd.fill a).quantumAt j := by
  simp only [NodeRep.quantumAt, NodeRep.fill, ArrayRep.set]
  by_cases same : j = pos
  · subst j
    rw [if_pos rfl, List.getElem?_set_self (by rwa [a.whole])]
    rfl
  · rw [if_neg same, List.getElem?_set_ne (Ne.symm same)]

/-- The pointer in the slot of a place, and the bytes behind it. -/
theorem slot_place {d : Dev} {walked rest : List (NodeRep p)} {nd : NodeRep p} {arr : ArrayRep p}
    (linked : Linked d (walked ++ nd.fill arr :: rest)) (a : Place p) :
    ∃ slot : Option (QuantumRep p), d.slot arr.addr a.pos = .ok (slotPtr slot) ∧
      (nd.fill arr).quantumAt a.pos = slotBytes (some slot) ∧
      ∀ q, slot = some q → ∀ n, a.byte + n ≤ p.quantum →
        d.copyOut q.addr a.byte n = .ok ((q.bytes.drop a.byte).take n) := by
  obtain ⟨left, slot, right, split, position⟩ := split_at (i := a.pos) (by rw [arr.whole]; exact a.pos_lt)
  have loaded := slot_split split linked.holds
  have present : (nd.fill arr).quantumAt left.length = slotBytes (some slot) := quantumAt_split split
  rw [position] at loaded present
  refine ⟨slot, loaded, present, ?_⟩
  rintro q rfl n fits
  have stays : Linked d (walked ++ nd.fill (arr.set a.pos q) :: rest) := by
    rw [← position, set_same split]
    exact linked
  exact copyOut_spec a.pos_lt stays fits

section Succeeding

variable {v : Vmalloc} (succeeds : ∀ n h, v.answer n h ≠ 0)

include succeeds

/-- The walk to a place changes no contents. -/
theorem follow_place {d : Dev} {nodes : List (NodeRep p)} (linked : Linked d nodes) (a : Place p) :
    ∃ (walked rest : List (NodeRep p)) (nd : NodeRep p) (d' : Dev),
      scullFollow v d.down a.idx = .ok (nd.addr, d') ∧ Linked d' (walked ++ nd :: rest) ∧ d'.sema + 1 = d.sema ∧
      walked.length = a.idx ∧ contents (walked ++ nd :: rest) = contents nodes ∧
      contents nodes a.idx a.pos = nd.quantumAt a.pos := by
  obtain ⟨walked, rest, more, nd, d', followed, linked', sema, length, shape, empties, _⟩ :=
    scullFollow_spec succeeds linked.down a.idx_lt
  have same : contents (walked ++ nd :: rest) = contents nodes := by rw [shape, contents_append empties]
  refine ⟨walked, rest, nd, d', followed, linked', ?_, length, same, ?_⟩
  · rw [sema]
    exact Int.sub_add_cancel _ _
  · rw [← same, contents_mid, if_pos length.symm]

theorem scullRead_spec {d : Dev} {nodes : List (NodeRep p)} (linked : Linked d nodes) {off : Int} {a : Place p}
    (located : At p off a) (len : Nat) :
    ∃ (nodes' : List (NodeRep p)) (d' : Dev), Linked d' nodes' ∧ d'.sema = d.sema ∧
      contents nodes' = contents nodes ∧
      scullRead p v d false off len 0 = .ok (readAnswer a off len d' (contents nodes a.idx a.pos)) := by
  obtain ⟨walked, rest, nd, d₁, followed, linked₁, sema, _, same, stored⟩ := follow_place succeeds linked a
  have holds := linked₁.holds
  rw [segment_mid] at holds
  have node := qset_eq holds
  refine ⟨_, d₁.up, linked₁.up, sema, same, ?_⟩
  rw [stored, scullRead, located.index, followed, located.toU64_pos, located.pos, located.offset]
  simp only [Bool.false_eq_true, if_false, bind, Except.bind, nd.noErr, node]
  cases array : nd.array with
  | none =>
    have absent : nd.quantumAt a.pos = none := by rw [NodeRep.quantumAt, array]
    rw [absent]
    simp only [arrayPtr, true_or, if_true]
    rfl
  | some arr =>
    rw [← fill_same array] at linked₁ ⊢
    obtain ⟨slot, loaded, present, bytes⟩ := slot_place linked₁ a
    have inside : ¬ a.pos ≥ p.qset := Nat.not_le.mpr a.pos_lt
    have proceed : ¬ (arr.addr = 0 ∨ a.pos ≥ p.qset) := fun stop => stop.elim arr.nonnull inside
    rw [present]
    simp only [arrayPtr, if_neg proceed, loaded]
    cases slot with
    | none =>
      simp only [slotPtr, if_true]
      rfl
    | some q =>
      have read := bytes q rfl _ (a.byte_add_le len)
      simp only [slotPtr, if_neg q.nonnull, located.count, a.toU64_count, read, Nat.zero_min, ne_eq,
        not_true_eq_false, if_false]
      rfl

theorem scullWrite_spec {d : Dev} {nodes : List (NodeRep p)} (linked : Linked d nodes) {off : Int} {a : Place p}
    (located : At p off a) (user : List UInt8) (fault : Nat) :
    ∃ (nodes' : List (NodeRep p)) (d' : Dev), Linked d' nodes' ∧ d'.sema = d.sema ∧
      contents nodes' = written a (a.copied user fault) (contents nodes) ∧
      scullWrite p v d false off user fault = .ok (writeAnswer a off user fault d') := by
  obtain ⟨walked, rest, nd, d₁, followed, linked₁, sema₁, length, same, stored⟩ := follow_place succeeds linked a
  obtain ⟨arr, d₂, ensured, linked₂, sema₂, kept⟩ := ensureData_spec succeeds linked₁
  obtain ⟨q, d₃, found, linked₃, sema₃, bytes⟩ := ensureQuantum_spec succeeds linked₂ a.pos_lt
  obtain ⟨d₄, copied, linked₄, sema₄⟩ := copyIn_spec a.pos_lt linked₃ (a.copied_le user fault)
  have sema : d₄.up.sema = d.sema := by
    rw [Dev.up, sema₄, sema₃, sema₂, sema₁]
  have inside : ¬ a.pos ≥ p.qset := Nat.not_le.mpr a.pos_lt
  refine ⟨_, d₄.up, linked₄.up, sema, ?_, ?_⟩
  · funext i j
    rw [written, stored, ← same, contents_mid, contents_mid, quantumAt_set a.pos_lt, kept, length]
    by_cases node : i = a.idx
    · by_cases slot : j = a.pos
      · rw [if_pos node, if_pos slot, if_pos ⟨node, slot⟩, ← kept, ← bytes]
        rfl
      · rw [if_pos node, if_neg slot, if_neg fun both => slot both.2, if_pos node]
    · rw [if_neg node, if_neg fun both : i = a.idx ∧ j = a.pos => node both.1, if_neg node]
  · rw [scullWrite, located.index, followed, located.toU64_pos, located.pos, located.offset]
    rw [Place.copied] at copied
    simp only [Bool.false_eq_true, if_false, bind, Except.bind, nd.noErr, if_neg inside, ensured, found,
      located.count, a.toU64_count, copied, writeAnswer]
    split <;> rfl

end Succeeding

end Ldd3.Scull
