import Ldd3.Scull.Store

/-!
Which file offsets share a byte. The index of a list node is an `int`, so offsets `2 ^ 32` nodes apart
lead to the same place, and in half of each such span the index is negative and `scull_follow` returns
`NULL`.
-/

namespace Ldd3.Scull

open Base.Words

variable {p : Params}

/-- A position that `scull_llseek` can set. -/
def Accepted (p : Params) (off : Int) : Prop :=
  off < 2 ^ 63 ∧ ∃ fpos arg whence, scullLlseek p false fpos arg whence = .ok off

theorem accepted_iff {off : Int} : Accepted p off ↔ 0 ≤ off ∧ off < 2 ^ 63 := by
  constructor
  · rintro ⟨high, _, _, _, sought⟩
    exact ⟨llseek_nonneg sought, high⟩
  · rintro ⟨low, high⟩
    refine ⟨high, 0, off, 0, ?_⟩
    have target : seekTarget p 0 off 0 = some off := rfl
    simp only [scullLlseek, target, if_neg (Int.not_lt.mpr low), Bool.false_eq_true, if_false]

def Params.triple (p : Params) (off : Int) : Int × Int × Int := (p.index off, p.pos off, p.offset off)

structure Bounded (p : Params) (off : Int) : Prop where
  index : 0 ≤ p.index off
  pos : 0 ≤ p.pos off ∧ p.pos off < p.qset
  offset : 0 ≤ p.offset off ∧ p.offset off < p.quantum

/-- A write of the one byte at `off` leaves the byte that a read at `other` delivers, also when the
write is interrupted or its copy fails. -/
def Separate (p : Params) (v : Vmalloc) (off other : Int) : Prop :=
  ∀ (d : Dev) (nodes : List (NodeRep p)), Linked d nodes →
    ∀ (x : UInt8) (signal : Bool) (fault : Nat) (w r : Done) (n : Int),
    scullWrite p v d signal off [x] fault = .ok w → scullRead p v d false other 1 0 = .ok r → r.ret = .ok n →
    ∃ r', scullRead p v w.dev false other 1 0 = .ok r' ∧ r'.ret = .ok n ∧ r'.delivered = r.delivered

structure Apart (p : Params) (v : Vmalloc) (off other : Int) : Prop where
  triples : p.triple off ≠ p.triple other
  bounded : Bounded p off ∧ Bounded p other
  separate : Separate p v off other ∧ Separate p v other off

/-! ### The triple of an offset -/

/-- The offsets that one turn of the index covers. -/
def Params.span (p : Params) : Nat := 2 ^ 32 * p.size

theorem toU64_offset {off : Nat} (high : off < 2 ^ 63) : toU64 (off : Int) = off := by
  rw [toU64_natCast, Nat.mod_eq_of_lt (by omega)]

theorem span_div (p : Params) (off : Nat) : off % p.span / p.size = off / p.size % 2 ^ 32 :=
  Nat.mod_mul_left_div_self off p.size (2 ^ 32)

theorem span_mod (p : Params) (off : Nat) : off % p.span % p.size = off % p.size :=
  Nat.mod_mul_left_mod off (2 ^ 32) p.size

theorem index_span {off : Nat} (high : off < 2 ^ 63) : p.index off = toInt32 (off % p.span / p.size : Nat) := by
  rw [Params.index, toU64_offset high, span_div, toInt32, toInt32, Int.natCast_mod]
  exact (Int.emod_bmod _ _).symm

theorem triple_span {off : Nat} (high : off < 2 ^ 63) : p.triple off = p.triple (off % p.span : Nat) := by
  have below : off % p.span < 2 ^ 63 := Nat.lt_of_le_of_lt (Nat.mod_le _ _) high
  rw [Params.triple, Params.triple, index_span high, index_span below, Nat.mod_mod, p.pos_eq, p.pos_eq, p.offset_eq,
    p.offset_eq, toU64_offset high, toU64_offset below, span_mod]

theorem index_nonneg {off : Nat} (high : off < 2 ^ 63) : 0 ≤ p.index off ↔ off % p.span < 2 ^ 31 * p.size := by
  have turn : off % p.span / p.size < 2 ^ 32 := by
    rw [span_div]
    exact Nat.mod_lt _ (by decide)
  rw [index_span high, ← Nat.div_lt_iff_lt_mul p.size_pos]
  generalize off % p.span / p.size = node at turn
  unfold toInt32
  rw [Int.bmod_def]
  omega

theorem bounded_iff {off : Nat} (high : off < 2 ^ 63) : Bounded p off ↔ off % p.span < 2 ^ 31 * p.size := by
  rw [← index_nonneg high]
  constructor
  · intro bounded
    exact bounded.index
  · intro index
    have slot := p.slot_lt off
    have byte := Nat.mod_lt (toU64 off % p.size) p.quantum_pos
    refine ⟨index, ?_, ?_⟩
    · rw [p.pos_eq]
      exact ⟨Int.natCast_nonneg _, Int.ofNat_lt.mpr slot⟩
    · rw [p.offset_eq]
      exact ⟨Int.natCast_nonneg _, Int.ofNat_lt.mpr byte⟩

theorem triple_injective {off other : Nat} (low : off < 2 ^ 31 * p.size) (otherLow : other < 2 ^ 31 * p.size)
    (high : off < 2 ^ 63) (otherHigh : other < 2 ^ 63) (same : p.triple off = p.triple other) : off = other := by
  simp only [Params.triple, Params.index, p.pos_eq, p.offset_eq, toU64_offset high, toU64_offset otherHigh,
    Prod.mk.injEq] at same
  obtain ⟨node, slot, byte⟩ := same
  rw [toInt32_small ((Nat.div_lt_iff_lt_mul p.size_pos).mpr low),
    toInt32_small ((Nat.div_lt_iff_lt_mul p.size_pos).mpr otherLow), Int.ofNat_inj] at node
  have rest : off % p.size = other % p.size := by
    rw [← Nat.div_add_mod (off % p.size) p.quantum, Int.ofNat_inj.mp slot, Int.ofNat_inj.mp byte, Nat.div_add_mod]
  rw [← Nat.div_add_mod off p.size, node, rest, Nat.div_add_mod]

/-! ### A write and a read at different triples -/

theorem contents_bound {nodes : List (NodeRep p)} {i j : Nat} {bytes : List UInt8}
    (stored : contents nodes i j = some bytes) : i < nodes.length := by
  unfold contents at stored
  split at stored
  · cases stored
  · rename_i found
    exact (List.getElem?_eq_some_iff.mp found).1

theorem At.unique {off other : Int} {a b : Place p} (located : At p off a) (otherLocated : At p other b)
    (distinct : p.triple off ≠ p.triple other) : ¬ (b.idx = a.idx ∧ b.pos = a.pos ∧ b.byte = a.byte) := by
  rintro ⟨idx, pos, byte⟩
  apply distinct
  rw [Params.triple, Params.triple, located.index, located.pos, located.offset, otherLocated.index, otherLocated.pos,
    otherLocated.offset, idx, pos, byte]

theorem written_byte {a b : Place p} {xs bytes : List UInt8} (one : xs.length = 1)
    {old : Nat → Nat → Option (List UInt8)}
    (stored : old b.idx b.pos = some bytes) (whole : bytes.length = p.quantum)
    (different : ¬ (b.idx = a.idx ∧ b.pos = a.pos ∧ b.byte = a.byte)) :
    ∃ bytes', written a xs old b.idx b.pos = some bytes' ∧ bytes'[b.byte]? = bytes[b.byte]? := by
  by_cases block : b.idx = a.idx ∧ b.pos = a.pos
  · obtain ⟨node, slot⟩ := block
    have inside : a.byte + xs.length ≤ bytes.length := by
      rw [one, whole]
      exact a.byte_lt
    have apart : b.byte ≠ a.byte := fun byte => different ⟨node, slot, byte⟩
    rw [written, if_pos ⟨node, slot⟩, ← node, ← slot, stored]
    refine ⟨_, rfl, ?_⟩
    rw [Option.getD_some, overwrite_get inside, if_neg]
    omega
  · rw [written, if_neg block]
    exact ⟨bytes, stored, rfl⟩

theorem take_one_congr {bytes bytes' : List UInt8} {i : Nat} (same : bytes'[i]? = bytes[i]?) :
    (bytes'.drop i).take 1 = (bytes.drop i).take 1 := by
  rw [List.take_one, List.take_one, List.head?_drop, List.head?_drop, same]

theorem scullRead_hangs {v : Vmalloc} {d : Dev} {off : Int} {len fault : Nat} (last : p.index off = 2 ^ 31 - 1) :
    scullRead p v d false off len fault = .error .hang := by
  rw [scullRead, last]
  rfl

theorem scullWrite_hangs {v : Vmalloc} {d : Dev} {off : Int} {user : List UInt8} {fault : Nat}
    (last : p.index off = 2 ^ 31 - 1) : scullWrite p v d false off user fault = .error .hang := by
  rw [scullWrite, last]
  rfl

/-- An offset with an index that is not negative leads to a place, or the index is the largest `int`. -/
theorem place_or_last {off : Nat} (high : off < 2 ^ 63) (low : off % p.span < 2 ^ 31 * p.size) :
    (∃ a, At p off a) ∨ p.index off = 2 ^ 31 - 1 := by
  by_cases last : p.index off = 2 ^ 31 - 1
  · exact Or.inr last
  · exact Or.inl (exists_place ((index_nonneg high).mpr low) last)

/-- A write that a signal stops changes nothing. -/
theorem separate_intro {v : Vmalloc} {off other : Int}
    (granted : ∀ (d : Dev) (nodes : List (NodeRep p)), Linked d nodes →
      ∀ (x : UInt8) (fault : Nat) (w r : Done) (n : Int),
      scullWrite p v d false off [x] fault = .ok w → scullRead p v d false other 1 0 = .ok r → r.ret = .ok n →
      ∃ r', scullRead p v w.dev false other 1 0 = .ok r' ∧ r'.ret = .ok n ∧ r'.delivered = r.delivered) :
    Separate p v off other := by
  intro d nodes linked x signal fault w r n wrote read answered
  cases signal with
  | true =>
    cases wrote
    exact ⟨r, read, answered, rfl⟩
  | false => exact granted d nodes linked x fault w r n wrote read answered

theorem separate_places (v : Vmalloc) {off other : Int} {a b : Place p} (located : At p off a)
    (otherLocated : At p other b) (distinct : p.triple off ≠ p.triple other) : Separate p v off other := by
  apply separate_intro
  intro d nodes linked x fault w r n wrote read answered
  obtain ⟨nodes', d', linked', _, changed, ran⟩ := scullWrite_spec v.total_succeeds linked located [x] fault
  obtain ⟨_, _, _, _, _, before⟩ := scullRead_spec v.total_succeeds linked otherLocated 1
  obtain ⟨_, d₂, _, _, _, after⟩ := scullRead_spec v.total_succeeds linked' otherLocated 1
  have one : ∀ c : Place p, min 1 c.room = 1 := fun c => Nat.min_eq_left (Nat.sub_pos_of_lt c.byte_lt)
  have byte : (a.copied [x] fault).length = 1 := (a.copied_length [x] fault).trans (one a)
  cases ran.symm.trans (scullWrite_total linked.null wrote)
  cases before.symm.trans (scullRead_total linked.null read)
  cases stored : contents nodes b.idx b.pos with
  | none =>
    rw [stored] at answered
    cases answered
  | some bytes =>
    obtain ⟨bytes', now, same⟩ :=
      written_byte byte stored (contents_length stored) (located.unique otherLocated distinct)
    rw [← changed] at now
    rw [now, ← scullRead_present linked' otherLocated (contents_bound now) v] at after
    rw [stored] at answered
    rw [writeAnswer_dev]
    refine ⟨_, after, answered, ?_⟩
    simp only [readAnswer, one]
    exact take_one_congr same

theorem separate_of_triple (v : Vmalloc) {off other : Nat} (high : off < 2 ^ 63) (otherHigh : other < 2 ^ 63)
    (low : off % p.span < 2 ^ 31 * p.size) (otherLow : other % p.span < 2 ^ 31 * p.size)
    (distinct : p.triple off ≠ p.triple other) : Separate p v off other := by
  rcases place_or_last high low with ⟨a, located⟩ | last
  · rcases place_or_last otherHigh otherLow with ⟨b, otherLocated⟩ | last
    · exact separate_places v located otherLocated distinct
    · apply separate_intro
      intro _ _ _ _ _ _ _ _ _ read
      rw [scullRead_hangs last] at read
      cases read
  · apply separate_intro
    intro _ _ _ _ _ _ _ _ wrote
    rw [scullWrite_hangs last] at wrote
    cases wrote

theorem apart_iff (p : Params) (v : Vmalloc) {off other : Nat} (accepted : Accepted p off)
    (otherAccepted : Accepted p other) :
    Apart p v off other ↔
      off % (2 ^ 32 * p.size) < 2 ^ 31 * p.size ∧ other % (2 ^ 32 * p.size) < 2 ^ 31 * p.size ∧
        off % (2 ^ 32 * p.size) ≠ other % (2 ^ 32 * p.size) := by
  have high : off < 2 ^ 63 := Int.ofNat_lt.mp (accepted_iff.mp accepted).2
  have otherHigh : other < 2 ^ 63 := Int.ofNat_lt.mp (accepted_iff.mp otherAccepted).2
  constructor
  · intro apart
    refine ⟨(bounded_iff high).mp apart.bounded.1, (bounded_iff otherHigh).mp apart.bounded.2, ?_⟩
    intro same
    apply apart.triples
    rw [triple_span high, triple_span otherHigh, Params.span, same]
  · rintro ⟨low, otherLow, different⟩
    have distinct : p.triple off ≠ p.triple other := by
      rw [triple_span high, triple_span otherHigh]
      intro same
      exact different (triple_injective low otherLow (Nat.lt_of_le_of_lt (Nat.mod_le _ _) high)
        (Nat.lt_of_le_of_lt (Nat.mod_le _ _) otherHigh) same)
    exact ⟨distinct, ⟨(bounded_iff high).mpr low, (bounded_iff otherHigh).mpr otherLow⟩,
      separate_of_triple v high otherHigh low otherLow distinct,
      separate_of_triple v otherHigh high otherLow low (Ne.symm distinct)⟩

theorem apart_iff_neighbours :
    (Accepted .loaded (7 : Nat) ∧ Accepted .loaded (2 ^ 32 * 100 + 8 : Nat)) ∧
      Apart .loaded upwards (7 : Nat) (2 ^ 32 * 100 + 8 : Nat) := by
  have accepted : Accepted .loaded (7 : Nat) := accepted_iff.mpr (by decide)
  have otherAccepted : Accepted .loaded (2 ^ 32 * 100 + 8 : Nat) := accepted_iff.mpr (by decide)
  exact ⟨⟨accepted, otherAccepted⟩, (apart_iff .loaded upwards accepted otherAccepted).mpr (by decide)⟩

/-- The byte at 0 after it is written there and another byte at `off`. -/
def readBack (off : Int) : Except Oops (List UInt8) := do
  let w ← scullWrite .loaded upwards .started false 0 [7] 0
  let w ← scullWrite .loaded upwards w.dev false off [9] 0
  let r ← scullRead .loaded upwards w.dev false 0 1 0
  return r.delivered

theorem offsets_collide :
    (Accepted .loaded 0 ∧ Accepted .loaded (2 ^ 32 * 100) ∧ Accepted .loaded (2 ^ 31 * 100)) ∧
      ¬ Apart .loaded upwards 0 (2 ^ 32 * 100) ∧ readBack (2 ^ 32 * 100) = .ok [9] ∧
      Params.loaded.index (2 ^ 31 * 100) = -2 ^ 31 ∧
      (scullRead .loaded upwards .started false (2 ^ 31 * 100) 1 0).map Done.ret = .error (.fault 0) := by
  have same : Params.loaded.triple 0 = Params.loaded.triple (2 ^ 32 * 100) := by decide
  refine ⟨⟨?_, ?_, ?_⟩, ?_, ?_, ?_, ?_⟩
  · exact accepted_iff.mpr (by decide)
  · exact accepted_iff.mpr (by decide)
  · exact accepted_iff.mpr (by decide)
  · intro apart
    exact apart.triples same
  · decide +kernel
  · decide
  · decide +kernel

end Ldd3.Scull
