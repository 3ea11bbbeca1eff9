import Ldd3.Scull.Chain

/-!
What the heap of the device stands for: a list of nodes, each with an array or none, each array with
a quantum or none in every slot. `segment` lists the heap cells of such a list of nodes, and a device
is `Linked` to a list when its heap is exactly these cells. Every operation is then a step from list
to list: `scull_follow` appends empty nodes, a write fills in an array, a quantum and bytes of it, and
`scull_trim` takes everything away.
-/

namespace Ldd3.Scull

open Base.Heap Base.Words

structure QuantumRep (p : Params) where
  addr : Addr
  bytes : List UInt8
  nonnull : addr ≠ 0
  whole : bytes.length = p.quantum

structure ArrayRep (p : Params) where
  addr : Addr
  slots : List (Option (QuantumRep p))
  nonnull : addr ≠ 0
  whole : slots.length = p.qset

structure NodeRep (p : Params) where
  addr : Addr
  array : Option (ArrayRep p)
  nonnull : addr ≠ 0
  noErr : isErr addr = false

variable {p : Params}

def slotPtr : Option (QuantumRep p) → Addr
  | none => 0
  | some q => q.addr

def slotCells : Option (QuantumRep p) → List (Addr × Block)
  | none => []
  | some q => [(q.addr, .quantum q.bytes)]

def arrayPtr : Option (ArrayRep p) → Addr
  | none => 0
  | some a => a.addr

def arrayCells : Option (ArrayRep p) → List (Addr × Block)
  | none => []
  | some a => (a.addr, .slots (a.slots.map slotPtr)) :: a.slots.flatMap slotCells

def NodeRep.cells (nd : NodeRep p) (next : Addr) : List (Addr × Block) :=
  (nd.addr, .qset next (arrayPtr nd.array)) :: arrayCells nd.array

/-- The address of the first node, or `tail` if there is none. -/
def first : List (NodeRep p) → Addr → Addr
  | [], tail => tail
  | nd :: _, _ => nd.addr

def segment : List (NodeRep p) → Addr → List (Addr × Block)
  | [], _ => []
  | nd :: rest, tail => nd.cells (first rest tail) ++ segment rest tail

structure Linked (d : Dev) (nodes : List (NodeRep p)) : Prop where
  head : d.data = first nodes 0
  holds : Holds d.heap (segment nodes 0)

theorem first_append (xs ys : List (NodeRep p)) (tail : Addr) :
    first (xs ++ ys) tail = first xs (first ys tail) := by
  cases xs <;> rfl

theorem segment_append (xs ys : List (NodeRep p)) (tail : Addr) :
    segment (xs ++ ys) tail = segment xs (first ys tail) ++ segment ys tail := by
  induction xs with
  | nil => rfl
  | cons nd rest ih => rw [List.cons_append, segment, segment, ih, first_append, List.append_assoc]

theorem slotCells_empty (n : Nat) : (List.replicate n (none : Option (QuantumRep p))).flatMap slotCells = [] := by
  rw [List.flatMap_eq_nil_iff]
  intro slot member
  rw [List.eq_of_mem_replicate member]
  rfl

theorem linked_started : Linked Dev.started ([] : List (NodeRep p)) := ⟨rfl, holds_empty⟩

/-! ### `scull_follow` -/

/-- The slot that the next pointer after `nodes` stands in. -/
def slotAfter (nodes : List (NodeRep p)) : Slot :=
  match nodes.getLast? with
  | none => .head
  | some nd => .next nd.addr

def NodeRep.qset (nd : NodeRep p) : Qset := ⟨nd.addr, arrayPtr nd.array, nd.nonnull⟩

theorem slotAfter_qset (nodes : List (NodeRep p)) : slotAfter nodes = cursor (nodes.map NodeRep.qset) := by
  unfold slotAfter cursor
  rw [List.getLast?_map]
  cases nodes.getLast? <;> rfl

theorem first_qset (nodes : List (NodeRep p)) (tail : Addr) :
    Qset.first (nodes.map NodeRep.qset) tail = first nodes tail := by
  cases nodes <;> rfl

theorem segment_perm (nodes : List (NodeRep p)) (tail : Addr) :
    (segment nodes tail).Perm
      (Qset.links (nodes.map NodeRep.qset) tail ++ nodes.flatMap fun nd => arrayCells nd.array) := by
  induction nodes with
  | nil => exact List.Perm.refl _
  | cons nd rest ih =>
    rw [segment, NodeRep.cells, List.map_cons, Qset.links, first_qset, List.flatMap_cons]
    apply List.Perm.cons
    exact (ih.append_left _).trans (List.perm_append_comm_assoc _ _ _)

/-- The nodes are a chain, with the arrays and quanta as the rest of the heap. -/
theorem linked_iff_chain {d : Dev} {nodes : List (NodeRep p)} :
    Linked d nodes ↔ Chain d (nodes.map NodeRep.qset) (nodes.flatMap fun nd => arrayCells nd.array) := by
  constructor
  · exact fun linked => ⟨linked.head.trans (first_qset nodes 0).symm, linked.holds.perm (segment_perm nodes 0)⟩
  · exact fun chain => ⟨chain.head.trans (first_qset nodes 0), chain.holds.perm (segment_perm nodes 0).symm⟩

def emptyNode (p : Params) (a : Addr) (nonnull : a ≠ 0) (noErr : isErr a = false) : NodeRep p :=
  ⟨a, none, nonnull, noErr⟩

theorem exists_empty {more : List Qset} (fresh : ∀ nd ∈ more, Fresh nd) :
    ∃ empties : List (NodeRep p), empties.map NodeRep.qset = more ∧ ∀ nd ∈ empties, nd.array = none := by
  induction more with
  | nil => exact ⟨[], rfl, List.forall_mem_nil _⟩
  | cons nd more ih =>
    obtain ⟨here, later⟩ := List.forall_mem_cons.mp fresh
    obtain ⟨empties, same, empty⟩ := ih later
    refine ⟨emptyNode p nd.addr nd.nonnull here.noErr :: empties, ?_, List.forall_mem_cons.mpr ⟨rfl, empty⟩⟩
    rw [List.map_cons, same]
    exact congrArg (· :: more) (Qset.ext rfl here.data.symm)

theorem scullFollow_spec {v : Vmalloc} (succeeds : ∀ n h, v.answer n h ≠ 0) {d : Dev} {nodes : List (NodeRep p)}
    (linked : Linked d nodes) {idx : Nat} (small : idx < 2 ^ 31 - 1) :
    ∃ (walked rest more : List (NodeRep p)) (nd : NodeRep p) (d' : Dev),
      scullFollow v d idx = .ok (nd.addr, d') ∧ Linked d' (walked ++ nd :: rest) ∧ d'.sema = d.sema ∧
      walked.length = idx ∧ walked ++ nd :: rest = nodes ++ more ∧ (∀ x ∈ more, x.array = none) ∧
      more.length = idx + 1 - nodes.length := by
  obtain ⟨more, cur, d', followed, chain, fresh, length, indexed, sema, _⟩ :=
    scullFollow_chain succeeds (linked_iff_chain.mp linked) small
  obtain ⟨empties, rfl, empty⟩ := exists_empty (p := p) fresh
  rw [List.length_map, List.length_map] at length
  have noArrays : empties.flatMap (fun nd => arrayCells nd.array) = [] := by
    rw [List.flatMap_eq_nil_iff]
    intro nd member
    rw [empty nd member]
    rfl
  have linked' : Linked d' (nodes ++ empties) := by
    rw [linked_iff_chain, List.map_append, List.flatMap_append, noArrays, List.append_nil]
    exact chain
  rw [← List.map_append, List.getElem?_map] at indexed
  obtain ⟨nd, found, rfl⟩ := Option.map_eq_some_iff.mp indexed
  obtain ⟨bound, rfl⟩ := List.getElem?_eq_some_iff.mp found
  have split : (nodes ++ empties).take idx ++ (nodes ++ empties)[idx] :: (nodes ++ empties).drop (idx + 1) =
      nodes ++ empties := by
    rw [List.getElem_cons_drop, List.take_append_drop]
  refine ⟨(nodes ++ empties).take idx, (nodes ++ empties).drop (idx + 1), empties, (nodes ++ empties)[idx], d',
    followed, ?_, sema, ?_, split, empty, length⟩
  · rw [split]
    exact linked'
  · rw [List.length_take]
    omega

/-! ### What is stored -/

def slotBytes : Option (Option (QuantumRep p)) → Option (List UInt8)
  | some (some q) => some q.bytes
  | _ => none

def NodeRep.quantumAt (nd : NodeRep p) (pos : Nat) : Option (List UInt8) :=
  match nd.array with
  | none => none
  | some a => slotBytes a.slots[pos]?

/-- The bytes of quantum `pos` of node `i`. -/
def contents (nodes : List (NodeRep p)) (i pos : Nat) : Option (List UInt8) :=
  match nodes[i]? with
  | none => none
  | some nd => nd.quantumAt pos

theorem slotBytes_length {slot : Option (Option (QuantumRep p))} {bytes : List UInt8}
    (stored : slotBytes slot = some bytes) : bytes.length = p.quantum := by
  match slot with
  | some (some q) =>
    cases stored
    exact q.whole

theorem contents_length {nodes : List (NodeRep p)} {i j : Nat} {bytes : List UInt8}
    (stored : contents nodes i j = some bytes) : bytes.length = p.quantum := by
  unfold contents NodeRep.quantumAt at stored
  split at stored
  · cases stored
  · split at stored
    · cases stored
    · exact slotBytes_length stored

theorem contents_append {nodes more : List (NodeRep p)} (empties : ∀ nd ∈ more, nd.array = none) :
    contents (nodes ++ more) = contents nodes := by
  funext i pos
  unfold contents
  by_cases inside : i < nodes.length
  · rw [List.getElem?_append_left inside]
  · rw [List.getElem?_append_right (by omega), List.getElem?_eq_none (l := nodes) (by omega)]
    cases found : more[i - nodes.length]? with
    | none => rfl
    | some nd =>
      have empty := empties nd (List.mem_of_getElem? found)
      simp only [NodeRep.quantumAt, empty]

theorem contents_mid (walked rest : List (NodeRep p)) (nd : NodeRep p) (i pos : Nat) :
    contents (walked ++ nd :: rest) i pos =
      if i = walked.length then nd.quantumAt pos
      else if i < walked.length then contents walked i pos else contents rest (i - walked.length - 1) pos := by
  unfold contents
  rcases Nat.lt_trichotomy i walked.length with below | same | above
  · rw [List.getElem?_append_left below, if_neg (by omega), if_pos below]
  · rw [if_pos same, List.getElem?_append_right (by omega), same, Nat.sub_self]
    rfl
  · rw [List.getElem?_append_right (by omega), if_neg (by omega), if_neg (by omega)]
    obtain ⟨k, rfl⟩ : ∃ k, i = walked.length + 1 + k := ⟨i - walked.length - 1, by omega⟩
    rw [show walked.length + 1 + k - walked.length = k + 1 by omega, List.getElem?_cons_succ,
      show k + 1 - 1 = k by omega]

theorem segment_mid (walked rest : List (NodeRep p)) (nd : NodeRep p) :
    segment (walked ++ nd :: rest) 0 = segment walked nd.addr ++
      (nd.addr, .qset (first rest 0) (arrayPtr nd.array)) :: (arrayCells nd.array ++ segment rest 0) := by
  rw [segment_append]
  rfl

/-- The same node with another array. -/
def NodeRep.fill (nd : NodeRep p) (a : ArrayRep p) : NodeRep p := ⟨nd.addr, some a, nd.nonnull, nd.noErr⟩

/-- The same array with the quantum `q` in slot `pos`. -/
def ArrayRep.set (a : ArrayRep p) (pos : Nat) (q : QuantumRep p) : ArrayRep p :=
  ⟨a.addr, a.slots.set pos (some q), a.nonnull, by rw [List.length_set, a.whole]⟩

theorem split_at {α : Type*} {xs : List α} {i : Nat} (bound : i < xs.length) :
    ∃ left x right, xs = left ++ x :: right ∧ left.length = i :=
  ⟨xs.take i, xs[i], xs.drop (i + 1), by rw [List.getElem_cons_drop, List.take_append_drop],
    by rw [List.length_take]; omega⟩

section Slot

variable {walked rest : List (NodeRep p)} {nd : NodeRep p} {a : ArrayRep p}
  {left right : List (Option (QuantumRep p))} {slot : Option (QuantumRep p)}

/-- The cells up to the array of the node `nd`. -/
def upTo (walked rest : List (NodeRep p)) (nd : NodeRep p) (a : ArrayRep p) : List (Addr × Block) :=
  segment walked nd.addr ++ [(nd.addr, .qset (first rest 0) a.addr)]

theorem segment_slot (split : a.slots = left ++ slot :: right) :
    segment (walked ++ nd.fill a :: rest) 0 = upTo walked rest nd a ++
      (a.addr, .slots (left.map slotPtr ++ slotPtr slot :: right.map slotPtr)) ::
        (left.flatMap slotCells ++ (slotCells slot ++ (right.flatMap slotCells ++ segment rest 0))) := by
  rw [segment_mid]
  simp [upTo, NodeRep.fill, arrayPtr, arrayCells, split]

theorem set_split (split : a.slots = left ++ slot :: right) (q : QuantumRep p) :
    (a.set left.length q).slots = left ++ some q :: right := by
  simp [ArrayRep.set, split]

theorem set_same {q : QuantumRep p} (split : a.slots = left ++ some q :: right) : a.set left.length q = a := by
  have slots := set_split split q
  rw [← split] at slots
  obtain ⟨addr, _, nonnull, whole⟩ := a
  simp only [ArrayRep.set] at slots ⊢
  simp only [slots]

theorem quantumAt_split (split : a.slots = left ++ slot :: right) :
    (nd.fill a).quantumAt left.length = slotBytes (some slot) := by
  simp [NodeRep.quantumAt, NodeRep.fill, split]

theorem slot_split {d : Dev} (split : a.slots = left ++ slot :: right)
    (holds : Holds d.heap (segment (walked ++ nd.fill a :: rest) 0)) :
    d.slot a.addr left.length = .ok (slotPtr slot) := by
  rw [segment_slot split] at holds
  rw [slot_eq holds left.length (by simp)]
  simp

end Slot

theorem Linked.replace {d d' : Dev} {walked rest : List (NodeRep p)} {nd : NodeRep p}
    (linked : Linked d (walked ++ nd :: rest)) (nd' : NodeRep p) (data : d'.data = d.data) (addr : nd'.addr = nd.addr)
    (holds : Holds d'.heap (segment (walked ++ nd' :: rest) 0)) : Linked d' (walked ++ nd' :: rest) := by
  refine ⟨?_, holds⟩
  rw [data, linked.head, first_append, first_append]
  exact congrArg (first walked) addr.symm

/-! ### `scull_write` -/

theorem ensureData_present {v : Vmalloc} {d : Dev} {qtr next data : Addr} (node : d.qset qtr = .ok (next, data))
    (nonnull : data ≠ 0) : ensureData p v d qtr = .ok (some data, d) := by
  simp only [ensureData, node, bind, Except.bind]
  exact if_neg nonnull

theorem ensureData_absent {v : Vmalloc} {d d₁ d₂ d₃ : Dev} {qtr next b : Addr} (node : d.qset qtr = .ok (next, 0))
    (allocated : d.vmalloc v = (b, d₁)) (stored : d₁.setData qtr b = .ok d₂) (noErr : isErr b = false)
    (filled : d₂.memset b (.slots (List.replicate p.qset 0)) = .ok d₃) :
    ensureData p v d qtr = .ok (some b, d₃) := by
  simp only [ensureData, node, bind, Except.bind, if_true, allocated, stored, noErr, Bool.false_eq_true, if_false,
    filled]
  rfl

theorem ensureQuantum_present {v : Vmalloc} {d : Dev} {data ptr : Addr} {pos : Int}
    (slot : d.slot data pos = .ok ptr) (nonnull : ptr ≠ 0) :
    ensureQuantum p v d data pos = .ok (some ptr, d) := by
  simp only [ensureQuantum, slot, bind, Except.bind]
  exact if_neg nonnull

theorem ensureQuantum_absent {v : Vmalloc} {d d₁ d₂ d₃ : Dev} {data b : Addr} {pos : Int}
    (slot : d.slot data pos = .ok 0) (allocated : d.vmalloc v = (b, d₁)) (stored : d₁.setSlot data pos b = .ok d₂)
    (noErr : isErr b = false) (filled : d₂.memset b (.quantum (List.replicate p.quantum 0)) = .ok d₃) :
    ensureQuantum p v d data pos = .ok (some b, d₃) := by
  simp only [ensureQuantum, slot, bind, Except.bind, if_true, allocated, stored, noErr, Bool.false_eq_true, if_false,
    filled]
  rfl

section Succeeding

variable {v : Vmalloc} (succeeds : ∀ n h, v.answer n h ≠ 0)

include succeeds

theorem ensureData_spec {d : Dev} {walked rest : List (NodeRep p)} {nd : NodeRep p}
    (linked : Linked d (walked ++ nd :: rest)) :
    ∃ (a : ArrayRep p) (d' : Dev), ensureData p v d nd.addr = .ok (some a.addr, d') ∧
      Linked d' (walked ++ nd.fill a :: rest) ∧ d'.sema = d.sema ∧
      ∀ pos, (nd.fill a).quantumAt pos = nd.quantumAt pos := by
  have holds := linked.holds
  rw [segment_mid] at holds
  have node := qset_eq holds
  cases array : nd.array with
  | some a =>
    rw [array] at node
    have same : nd.fill a = nd := by rw [NodeRep.fill, ← array]
    exact ⟨a, d, ensureData_present node a.nonnull, by rwa [same], rfl, fun pos => by rw [same]⟩
  | none =>
    obtain ⟨b, nonnull, noErr, fresh, allocated⟩ := vmalloc_fresh succeeds d
    rw [array] at node holds
    simp only [arrayPtr, arrayCells, List.nil_append] at node holds
    have grouped : Holds d.heap
        ((segment walked nd.addr ++ [(nd.addr, .qset (first rest 0) 0)]) ++ segment rest 0) := by
      simpa using holds
    have added := grouped.alloc fresh .raw
    rw [List.append_assoc, List.singleton_append] at added
    have stored := added.store (.qset (first rest 0) b)
    rw [← List.singleton_append, ← List.append_assoc] at stored
    have filled := stored.store (.slots (List.replicate p.qset 0))
    refine ⟨⟨b, List.replicate p.qset none, nonnull, List.length_replicate⟩, _,
      ensureData_absent node allocated (setData_eq added b) noErr (memset_eq stored _), ?_, rfl, fun pos => ?_⟩
    · refine linked.replace (nd.fill _) rfl rfl ?_
      rw [segment_mid]
      simpa [NodeRep.fill, arrayPtr, arrayCells, slotPtr, slotCells_empty] using filled
    · simp only [NodeRep.quantumAt, NodeRep.fill, array]
      cases found : (List.replicate p.qset (none : Option (QuantumRep p)))[pos]? with
      | none => rfl
      | some slot =>
        rw [List.eq_of_mem_replicate (List.mem_of_getElem? found)]
        rfl

/-- The quantum in slot `pos`, or the zero quantum of a slot that is empty. -/
theorem ensureQuantum_spec {d : Dev} {walked rest : List (NodeRep p)} {nd : NodeRep p} {a : ArrayRep p}
    (linked : Linked d (walked ++ nd.fill a :: rest)) {pos : Nat} (bound : pos < p.qset) :
    ∃ (q : QuantumRep p) (d' : Dev), ensureQuantum p v d a.addr pos = .ok (some q.addr, d') ∧
      Linked d' (walked ++ nd.fill (a.set pos q) :: rest) ∧ d'.sema = d.sema ∧
      q.bytes = ((nd.fill a).quantumAt pos).getD (List.replicate p.quantum 0) := by
  obtain ⟨left, slot, right, split, rfl⟩ := split_at (i := pos) (by rwa [a.whole])
  have holds := linked.holds
  have loaded := slot_split split holds
  rw [quantumAt_split split]
  cases slot with
  | some q =>
    exact ⟨q, d, ensureQuantum_present loaded q.nonnull, by rwa [set_same split], rfl, rfl⟩
  | none =>
    obtain ⟨b, nonnull, noErr, fresh, allocated⟩ := vmalloc_fresh succeeds d
    let q : QuantumRep p := ⟨b, List.replicate p.quantum 0, nonnull, List.length_replicate⟩
    rw [segment_slot split] at holds
    have grouped : Holds d.heap ((upTo walked rest nd a ++
        (a.addr, .slots (left.map slotPtr ++ 0 :: right.map slotPtr)) :: left.flatMap slotCells) ++
        (right.flatMap slotCells ++ segment rest 0)) := by
      simpa [slotCells, slotPtr] using holds
    have added := grouped.alloc fresh .raw
    rw [List.append_assoc, List.cons_append] at added
    have stored := added.store (.slots ((left.map slotPtr ++ 0 :: right.map slotPtr).set left.length b))
    rw [← List.cons_append, ← List.append_assoc] at stored
    have filled := stored.store (.quantum (List.replicate p.quantum 0))
    refine ⟨q, _, ensureQuantum_absent loaded allocated (setSlot_eq added left.length (by simp) b) noErr
      (memset_eq stored _), ?_, rfl, rfl⟩
    refine linked.replace (nd.fill _) rfl rfl ?_
    rw [segment_slot (set_split split q)]
    simpa [upTo, ArrayRep.set, slotPtr, slotCells, q] using filled

end Succeeding

theorem overwrite_length {bytes xs : List UInt8} {offset : Nat} (inside : offset + xs.length ≤ bytes.length) :
    (overwrite bytes offset xs).length = bytes.length := by
  simp only [overwrite, List.length_append, List.length_take, List.length_drop]
  omega

theorem overwrite_get {bytes xs : List UInt8} {offset : Nat} (inside : offset + xs.length ≤ bytes.length) (j : Nat) :
    (overwrite bytes offset xs)[j]? = if offset ≤ j ∧ j < offset + xs.length then xs[j - offset]? else bytes[j]? := by
  have left : (bytes.take offset).length = offset := List.length_take_of_le (by omega)
  rw [overwrite, List.append_assoc]
  rcases Nat.lt_or_ge j offset with before | after
  · rw [List.getElem?_append_left (by omega), List.getElem?_take_of_lt before, if_neg (by omega)]
  · rw [List.getElem?_append_right (by omega), left]
    rcases Nat.lt_or_ge j (offset + xs.length) with within | beyond
    · rw [List.getElem?_append_left (by omega), if_pos ⟨after, within⟩]
    · rw [List.getElem?_append_right (by omega), List.getElem?_drop, if_neg (by omega)]
      congr 1
      omega

/-- The same quantum with `xs` copied to `offset`. -/
def QuantumRep.write (q : QuantumRep p) (offset : Nat) (xs : List UInt8) (inside : offset + xs.length ≤ p.quantum) :
    QuantumRep p :=
  ⟨q.addr, overwrite q.bytes offset xs, q.nonnull,
    (overwrite_length (by rwa [q.whole])).trans q.whole⟩

/-- A quantum that sits in slot `pos` and its cell. -/
theorem segment_quantum (walked rest : List (NodeRep p)) (nd : NodeRep p) (a : ArrayRep p) {pos : Nat}
    (bound : pos < p.qset) (q : QuantumRep p) :
    ∃ before after, (∀ q' : QuantumRep p, q'.addr = q.addr →
      segment (walked ++ nd.fill (a.set pos q') :: rest) 0 = before ++ (q.addr, .quantum q'.bytes) :: after) := by
  obtain ⟨left, slot, right, split, rfl⟩ := split_at (i := pos) (by rwa [a.whole])
  refine ⟨upTo walked rest nd a ++ (a.addr, .slots (left.map slotPtr ++ q.addr :: right.map slotPtr)) ::
    left.flatMap slotCells, right.flatMap slotCells ++ segment rest 0, ?_⟩
  intro q' same
  rw [segment_slot (set_split split q')]
  simp [upTo, ArrayRep.set, slotPtr, slotCells, same]

theorem copyIn_spec {d : Dev} {walked rest : List (NodeRep p)} {nd : NodeRep p} {a : ArrayRep p} {pos : Nat}
    (bound : pos < p.qset) {q : QuantumRep p} (linked : Linked d (walked ++ nd.fill (a.set pos q) :: rest))
    {offset : Nat} {xs : List UInt8} (inside : offset + xs.length ≤ p.quantum) :
    ∃ d', d.copyIn q.addr offset xs = .ok d' ∧
      Linked d' (walked ++ nd.fill (a.set pos (q.write offset xs inside)) :: rest) ∧ d'.sema = d.sema := by
  obtain ⟨before, after, shape⟩ := segment_quantum walked rest nd a bound q
  have holds := linked.holds
  rw [shape q rfl] at holds
  refine ⟨{ d with heap := d.heap.insert q.addr (.quantum (overwrite q.bytes offset xs)) }, ?_, ?_, rfl⟩
  · rw [Dev.copyIn, holds.lookup]
    have room : (0 : Int) ≤ offset ∧ (offset : Int) + xs.length ≤ q.bytes.length := by
      rw [q.whole]
      omega
    simp only [if_pos room, Int.toNat_natCast]
  · refine linked.replace (nd.fill _) rfl rfl ?_
    rw [shape (q.write offset xs inside) rfl]
    exact holds.store _

theorem copyOut_spec {d : Dev} {walked rest : List (NodeRep p)} {nd : NodeRep p} {a : ArrayRep p} {pos : Nat}
    (bound : pos < p.qset) {q : QuantumRep p} (linked : Linked d (walked ++ nd.fill (a.set pos q) :: rest))
    {offset n : Nat} (inside : offset + n ≤ p.quantum) :
    d.copyOut q.addr offset n = .ok ((q.bytes.drop offset).take n) := by
  obtain ⟨before, after, shape⟩ := segment_quantum walked rest nd a bound q
  have holds := linked.holds
  rw [shape q rfl] at holds
  rw [Dev.copyOut, holds.lookup]
  have room : (0 : Int) ≤ offset ∧ (offset : Int) + n ≤ q.bytes.length := by
    rw [q.whole]
    omega
  simp only [if_pos room, Int.toNat_natCast]

/-! ### `scull_trim`

The loops again, with the addresses they free in the order in which they free them. Forgetting the
addresses gives the loops of the device back, so what is proved of these holds of those. -/

abbrev Freeing := Except Oops (List Addr × Dev)

def trimSlotsLog : Nat → Dev → Addr → Nat → Freeing
  | 0, d, _, _ => .ok ([], d)
  | n + 1, d, data, i => do
    let ptr ← d.slot data i
    let d ← trimQuantum d ptr
    let d ← d.setSlot data i 0
    let (log, d) ← trimSlotsLog n d data (i + 1)
    return (if ptr ≠ 0 then ptr :: log else log, d)

def trimDataLog (p : Params) (d : Dev) (qtr data : Addr) : Freeing :=
  if data ≠ 0 then do
    let (log, d) ← trimSlotsLog p.qset d data 0
    let d ← d.vfree data
    let d ← d.setData qtr 0
    return (log ++ [data], d)
  else .ok ([], d)

def trimLoopLog (p : Params) : Nat → Dev → Addr → Freeing
  | 0, d, qtr => if qtr = 0 then .ok ([], d) else .error .hang
  | n + 1, d, qtr =>
    if qtr = 0 then .ok ([], d)
    else do
      let (_, data) ← d.qset qtr
      let (log, d) ← trimDataLog p d qtr data
      let (next, _) ← d.qset qtr
      let d ← d.vfree qtr
      let (rest, d) ← trimLoopLog p n d next
      return (log ++ qtr :: rest, d)

def scullTrimLog (p : Params) (d : Dev) : Freeing := do
  let (log, d) ← trimLoopLog p d.heap.keys.card d.down d.data
  return (log, ({ d with data := 0 } : Dev).up)

/-- A logged step is the step with an address list beside its result. -/
def Logs (logged : Freeing) (step : Except Oops Dev) : Prop := logged.map Prod.snd = step

theorem Logs.of_ok {logged : Freeing} {step : Except Oops Dev} (logs : Logs logged step) {log : List Addr} {d : Dev}
    (ran : logged = .ok (log, d)) : step = .ok d := by
  rw [← logs, ran]
  rfl

theorem trimSlots_logs (n : Nat) (d : Dev) (data : Addr) (i : Nat) :
    Logs (trimSlotsLog n d data i) (trimSlots n d data i) := by
  induction n generalizing d i with
  | zero => rfl
  | succ n ih =>
    unfold Logs at ih ⊢
    rw [trimSlotsLog, trimSlots]
    cases d.slot data i with
    | error e => rfl
    | ok ptr =>
      simp only [bind, Except.bind]
      cases trimQuantum d ptr with
      | error e => rfl
      | ok d₁ =>
        simp only
        cases d₁.setSlot data i 0 with
        | error e => rfl
        | ok d₂ =>
          simp only
          rw [← ih]
          cases trimSlotsLog n d₂ data (i + 1) <;> rfl

theorem trimData_logs (p : Params) (d : Dev) (qtr data : Addr) :
    Logs (trimDataLog p d qtr data) (trimData p d qtr data) := by
  unfold Logs
  rw [trimDataLog, trimData]
  split
  · rw [← trimSlots_logs]
    cases trimSlotsLog p.qset d data 0 with
    | error e => rfl
    | ok r =>
      simp only [bind, Except.bind, Except.map]
      cases r.2.vfree data with
      | error e => rfl
      | ok d₁ =>
        simp only
        cases d₁.setData qtr 0 <;> rfl
  · rfl

theorem trimLoop_logs (p : Params) (n : Nat) (d : Dev) (qtr : Addr) :
    Logs (trimLoopLog p n d qtr) (trimLoop p n d qtr) := by
  induction n generalizing d qtr with
  | zero =>
    unfold Logs
    rw [trimLoopLog, trimLoop]
    split <;> rfl
  | succ n ih =>
    unfold Logs at ih ⊢
    rw [trimLoopLog, trimLoop]
    split
    · rfl
    · rw [trimNode]
      cases d.qset qtr with
      | error e => rfl
      | ok fields =>
        simp only [bind, Except.bind]
        rw [← trimData_logs]
        cases trimDataLog p d qtr fields.2 with
        | error e => rfl
        | ok r =>
          simp only [Except.map]
          cases r.2.qset qtr with
          | error e => rfl
          | ok again =>
            simp only
            cases r.2.vfree qtr with
            | error e => rfl
            | ok d₁ =>
              simp only [pure, Except.pure]
              rw [← ih]
              cases trimLoopLog p n d₁ again.1 <;> rfl

theorem scullTrim_logs (p : Params) (d : Dev) : Logs (scullTrimLog p d) (scullTrim p d false) := by
  unfold Logs
  rw [scullTrimLog, scullTrim, ← trimLoop_logs]
  cases trimLoopLog p d.heap.keys.card d.down d.data <;> rfl

theorem trimQuantum_spec (slot : Option (QuantumRep p)) {d : Dev} {before after : List (Addr × Block)}
    (holds : Holds d.heap (before ++ (slotCells slot ++ after))) :
    ∃ d', trimQuantum d (slotPtr slot) = .ok d' ∧ d'.sema = d.sema ∧ Holds d'.heap (before ++ after) := by
  cases slot with
  | none => exact ⟨d, rfl, rfl, holds⟩
  | some q => exact ⟨_, (if_pos q.nonnull).trans (vfree_eq q.nonnull holds), rfl, holds.free⟩

theorem slotCells_cons (slot : Option (QuantumRep p)) (log : List Addr) :
    (if slotPtr slot ≠ 0 then slotPtr slot :: log else log) = (slotCells slot).map Prod.fst ++ log := by
  cases slot with
  | none => rfl
  | some q => exact if_pos q.nonnull

/-- The slots up to `i` are empty and their quanta freed; the loop frees the rest. -/
theorem trimSlots_spec (slots : List (Option (QuantumRep p))) {d : Dev} {before after : List (Addr × Block)}
    {data : Addr} (i : Nat)
    (holds : Holds d.heap (before ++ (data, .slots (List.replicate i 0 ++ slots.map slotPtr)) ::
      (slots.flatMap slotCells ++ after))) :
    ∃ d', trimSlotsLog slots.length d data i = .ok ((slots.flatMap slotCells).map Prod.fst, d') ∧
      d'.sema = d.sema ∧
      Holds d'.heap (before ++ (data, .slots (List.replicate (i + slots.length) 0)) :: after) := by
  induction slots generalizing d i with
  | nil => exact ⟨d, rfl, rfl, by simpa using holds⟩
  | cons slot slots ih =>
    have loaded : d.slot data i = .ok (slotPtr slot) := by
      rw [slot_eq holds i (by simp)]
      simp
    have cleared : (List.replicate i 0 ++ slotPtr slot :: slots.map slotPtr).set i 0 =
        List.replicate (i + 1) 0 ++ slots.map slotPtr := by
      rw [List.set_append_right _ _ (by simp), List.replicate_succ']
      simp
    rw [List.map_cons, List.flatMap_cons, List.append_assoc, ← List.singleton_append, ← List.append_assoc] at holds
    obtain ⟨d₁, freed, sema₁, holds₁⟩ := trimQuantum_spec slot holds
    rw [List.append_assoc, List.singleton_append] at holds₁
    have stored := setSlot_eq holds₁ i (by simp) 0
    rw [cleared] at stored
    obtain ⟨d', ran, sema', holds'⟩ := ih (i + 1)
      (d := { d₁ with heap := d₁.heap.insert data (.slots (List.replicate (i + 1) 0 ++ slots.map slotPtr)) })
      (holds₁.store _)
    refine ⟨d', ?_, sema'.trans sema₁, ?_⟩
    · simp only [List.length_cons, trimSlotsLog, loaded, bind, Except.bind, freed, stored, ran, pure, Except.pure,
        slotCells_cons, List.flatMap_cons, List.map_append]
    · rw [List.length_cons, show i + (slots.length + 1) = i + 1 + slots.length by omega]
      exact holds'

/-- The blocks of a node in the order in which they are freed: quanta, array, node. -/
def NodeRep.freed (nd : NodeRep p) : List Addr :=
  match nd.array with
  | none => [nd.addr]
  | some a => (a.slots.flatMap slotCells).map Prod.fst ++ [a.addr, nd.addr]

theorem NodeRep.freed_perm (nd : NodeRep p) (next : Addr) : nd.freed.Perm ((nd.cells next).map Prod.fst) := by
  unfold NodeRep.freed NodeRep.cells
  cases nd.array with
  | none => exact List.Perm.refl _
  | some a =>
    simp only [arrayCells, List.map_cons]
    exact List.perm_append_comm.trans (List.Perm.swap _ _ _)

theorem freed_perm_segment (nodes : List (NodeRep p)) (tail : Addr) :
    (nodes.flatMap NodeRep.freed).Perm ((segment nodes tail).map Prod.fst) := by
  induction nodes with
  | nil => exact List.Perm.refl _
  | cons nd rest ih =>
    rw [List.flatMap_cons, segment, List.map_append]
    exact (nd.freed_perm _).append ih

theorem trimData_spec {d : Dev} {nd : NodeRep p} {next : Addr} {others : List (Addr × Block)}
    (holds : Holds d.heap (nd.cells next ++ others)) :
    ∃ log d', trimDataLog p d nd.addr (arrayPtr nd.array) = .ok (log, d') ∧ log ++ [nd.addr] = nd.freed ∧
      d'.sema = d.sema ∧ Holds d'.heap ((nd.addr, .qset next 0) :: others) := by
  unfold NodeRep.freed
  cases array : nd.array with
  | none =>
    rw [NodeRep.cells, array] at holds
    exact ⟨[], d, rfl, rfl, rfl, holds⟩
  | some a =>
    rw [NodeRep.cells, array] at holds
    have grouped : Holds d.heap ([(nd.addr, .qset next a.addr)] ++
        (a.addr, .slots (List.replicate 0 0 ++ a.slots.map slotPtr)) :: (a.slots.flatMap slotCells ++ others)) := by
      simpa [arrayPtr, arrayCells] using holds
    obtain ⟨d₁, emptied, sema₁, holds₁⟩ := trimSlots_spec a.slots 0 grouped
    rw [a.whole] at emptied
    have freed := vfree_eq a.nonnull holds₁
    have holds₂ : Holds ({ d₁ with heap := d₁.heap.erase a.addr } : Dev).heap
        ([] ++ (nd.addr, .qset next a.addr) :: others) := holds₁.free
    have stored := setData_eq holds₂ 0
    refine ⟨(a.slots.flatMap slotCells).map Prod.fst ++ [a.addr],
      { d₁ with heap := (d₁.heap.erase a.addr).insert nd.addr (.qset next 0) }, ?_, ?_, sema₁,
      holds₂.store (.qset next 0)⟩
    · rw [arrayPtr, trimDataLog, if_pos a.nonnull]
      simp only [emptied, bind, Except.bind, freed, stored, pure, Except.pure]
    · rw [List.append_assoc]
      rfl

theorem trimLoop_spec (nodes : List (NodeRep p)) {d : Dev} (holds : Holds d.heap (segment nodes 0)) (fuel : Nat)
    (enough : nodes.length ≤ fuel) :
    ∃ d', trimLoopLog p fuel d (first nodes 0) = .ok (nodes.flatMap NodeRep.freed, d') ∧ d'.sema = d.sema ∧
      d'.heap = ∅ := by
  induction nodes generalizing d fuel with
  | nil =>
    refine ⟨d, ?_, rfl, holds.eq_empty⟩
    cases fuel <;> rfl
  | cons nd rest ih =>
    obtain ⟨fuel, rfl⟩ : ∃ left, fuel = left + 1 := ⟨fuel - 1, by simp only [List.length_cons] at enough; omega⟩
    have listed : Holds d.heap ([] ++ (nd.addr, .qset (first rest 0) (arrayPtr nd.array)) ::
        (arrayCells nd.array ++ segment rest 0)) := holds
    have node := qset_eq listed
    obtain ⟨log, d₁, cleared, order, sema₁, holds₁⟩ := trimData_spec holds
    have bare : Holds d₁.heap ([] ++ (nd.addr, .qset (first rest 0) 0) :: segment rest 0) := holds₁
    have again := qset_eq bare
    have freed := vfree_eq nd.nonnull bare
    obtain ⟨d', ran, sema', empty⟩ := ih (d := { d₁ with heap := d₁.heap.erase nd.addr }) bare.free fuel
      (by simpa using enough)
    refine ⟨d', ?_, sema'.trans sema₁, empty⟩
    rw [first, trimLoopLog, if_neg nd.nonnull]
    simp only [node, bind, Except.bind, cleared, again, freed, ran, pure, Except.pure]
    rw [List.flatMap_cons, ← order, List.append_assoc, List.singleton_append]

theorem length_le_segment (nodes : List (NodeRep p)) (tail : Addr) : nodes.length ≤ (segment nodes tail).length := by
  induction nodes with
  | nil => exact Nat.le_refl 0
  | cons nd rest ih =>
    rw [segment, List.length_append, List.length_cons, NodeRep.cells, List.length_cons]
    omega

/-- A trim frees every block and leaves an empty list. -/
theorem scullTrimLog_spec {d : Dev} {nodes : List (NodeRep p)} (linked : Linked d nodes) :
    ∃ d', scullTrimLog p d = .ok (nodes.flatMap NodeRep.freed, d') ∧ Linked d' ([] : List (NodeRep p)) ∧
      d'.sema = d.sema := by
  have enough : nodes.length ≤ d.heap.keys.card := by
    rw [linked.holds.card]
    exact length_le_segment nodes 0
  obtain ⟨d₁, ran, sema, empty⟩ := trimLoop_spec nodes (d := d.down) linked.holds d.heap.keys.card enough
  refine ⟨({ d₁ with data := 0 } : Dev).up, ?_, ⟨rfl, ?_⟩, ?_⟩
  · rw [← linked.head] at ran
    simp only [scullTrimLog, ran, bind, Except.bind]
    rfl
  · show Holds d₁.heap []
    rw [empty]
    exact holds_empty
  · show d₁.sema + 1 = d.sema
    rw [sema]
    exact Int.sub_add_cancel _ _

theorem scullTrim_spec {d : Dev} {nodes : List (NodeRep p)} (linked : Linked d nodes) :
    ∃ d', scullTrim p d false = .ok d' ∧ Linked d' ([] : List (NodeRep p)) ∧ d'.sema = d.sema := by
  obtain ⟨d', ran, linked', sema⟩ := scullTrimLog_spec linked
  exact ⟨d', (scullTrim_logs p d).of_ok ran, linked', sema⟩

end Ldd3.Scull
