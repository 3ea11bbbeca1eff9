import Ldd3.Scull.Ownership

/-!
The blocks that a write asks `vmalloc` for: the nodes up to its own, the array of that node and the
quantum of its slot, in this order, and each only if the device lacks it. `Refused` says that one of
them is refused, by the answers of `vmalloc` alone: a block that is granted is hung at the end of its
route, and the next answer is that to the device with this block. The walk and the two allocations of
`scull_write` go wrong exactly at a block that is refused.
-/

namespace Ldd3.Scull

open Base.Heap Base.Runs Base.Words

variable {p : Params}

/-- What a new block at the end of a route is cleared to. -/
def Route.zeros (p : Params) : Route → Block
  | .node _ => .qset 0 0
  | .array _ => .slots (List.replicate p.qset 0)
  | .quantum _ _ => .quantum (List.replicate p.quantum 0)

/-- The block that the last pointer of a route stands in; the pointer to the first node is in the
device itself. -/
def Dev.owner (d : Dev) : Route → Option Addr
  | .node 0 => none
  | .node (i + 1) => d.route (.node i)
  | .array i => d.route (.node i)
  | .quantum i _ => d.route (.array i)

/-- The block with its pointer on the route set to `a`. -/
def Block.aim (a : Addr) : Route → Block → Block
  | .node _, .qset _ data => .qset a data
  | .array _, .qset next _ => .qset next a
  | .quantum _ j, .slots ptrs => .slots (ptrs.set j a)
  | _, b => b

def Dev.aimed (d : Dev) (r : Route) (a : Addr) : Heap :=
  (d.owner r).elim d.heap fun q => (d.heap.lookup q).elim d.heap fun b => d.heap.insert q (b.aim a r)

/-- The device once it was given the block `a` for the end of the route `r`. -/
def Dev.grow (p : Params) (d : Dev) (r : Route) (a : Addr) : Dev :=
  { d with
    data := if r = .node 0 then a else d.data
    heap := (d.aimed r a).insert a (r.zeros p)
    calls := d.calls + 1 }

/-- `vmalloc` refuses a block of `needs` that the device lacks. -/
def Refused (p : Params) (v : Vmalloc) : Dev → List Route → Prop
  | _, [] => False
  | d, r :: needs =>
    if d.route r = none then
      v.answer d.calls d.heap = 0 ∨ Refused p v (d.grow p r (v.answer d.calls d.heap)) needs
    else Refused p v d needs

instance decidableRefused (p : Params) (v : Vmalloc) :
    (d : Dev) → (needs : List Route) → Decidable (Refused p v d needs)
  | _, [] => inferInstanceAs (Decidable False)
  | d, r :: needs =>
    have := decidableRefused p v d needs
    have := decidableRefused p v (d.grow p r (v.answer d.calls d.heap)) needs
    inferInstanceAs (Decidable (if d.route r = none then _ ∨ _ else _))

/-- The blocks that a write at `off` needs, in the order in which it comes to them. -/
def needed (p : Params) (off : Nat) : List Route :=
  (List.range (off / (p.quantum * p.qset) + 1)).map .node ++
    [.array (off / (p.quantum * p.qset)),
     .quantum (off / (p.quantum * p.qset)) (off % (p.quantum * p.qset) / p.quantum)]

/-! ### Giving a block -/

section Grow

variable {v : Vmalloc} {d : Dev} {nodes walked rest : List (NodeRep p)} {nd : NodeRep p} {r : Route} {a : Addr}

theorem vmalloc_granted (granted : v.answer d.calls d.heap ≠ 0) :
    d.vmalloc v = (v.answer d.calls d.heap,
      { d with heap := d.heap.insert (v.answer d.calls d.heap) .raw, calls := d.calls + 1 }) := by
  rw [Dev.vmalloc]
  simp only [if_neg granted]

theorem lookup_beside {q : Addr} {b : Block} (found : d.heap.lookup q = some b) (fresh : a ∉ d.heap) :
    q ≠ a ∧ (d.heap.insert a .raw).lookup q = some b := by
  have apart : q ≠ a := by
    rintro rfl
    exact fresh (Finmap.mem_iff.mpr ⟨b, found⟩)
  exact ⟨apart, (Finmap.lookup_insert_of_ne d.heap apart).trans found⟩

/-- Allocated, linked and cleared, in the order of the code. -/
theorem memset_grows {q : Addr} {b : Block} (owner : d.owner r = some q) (found : d.heap.lookup q = some b)
    (fresh : a ∉ d.heap) :
    ({ d with heap := (d.heap.insert a .raw).insert q (b.aim a r), calls := d.calls + 1 } : Dev).memset a (r.zeros p) =
      .ok (d.grow p r a) := by
  have live : a ∈ (d.heap.insert a .raw).insert q (b.aim a r) := by simp [Finmap.mem_insert]
  have apart := (lookup_beside found fresh).1
  have later : r ≠ .node 0 := by
    rintro rfl
    cases owner
  rw [Dev.memset, if_pos live, Finmap.insert_insert_of_ne _ apart.symm, Finmap.insert_insert]
  simp only [Dev.grow, Dev.aimed, owner, found, Option.elim_some, if_neg later]

theorem store_grows (linked : Linked d nodes) (fresh : a ∉ d.heap) :
    ∃ d₁, ({ d with heap := d.heap.insert a .raw, calls := d.calls + 1 } : Dev).store a (slotAfter nodes) = .ok d₁ ∧
      d₁.memset a (.qset 0 0) = .ok (d.grow p (.node nodes.length) a) := by
  rcases List.eq_nil_or_concat nodes with rfl | ⟨earlier, nd, rfl⟩
  · refine ⟨_, rfl, ?_⟩
    rw [Dev.memset, if_pos (Finmap.mem_insert.mpr (Or.inl rfl)), Finmap.insert_insert]
    rfl
  · rw [List.concat_eq_append] at linked ⊢
    have last : (earlier ++ [nd])[earlier.length]? = some nd := List.getElem?_concat_length
    have found := lookup_node linked last
    have owner : d.owner (.node (earlier ++ [nd]).length) = some nd.addr := by
      rw [List.length_append, List.length_singleton]
      exact (node_eq linked earlier.length).trans (congrArg _ last)
    refine ⟨_, ?_, memset_grows owner found fresh⟩
    have slot : slotAfter (earlier ++ [nd]) = .next nd.addr := by simp [slotAfter]
    rw [slot, Dev.store, Dev.setNext, Dev.qset]
    simp only [(lookup_beside found fresh).2]
    rfl

theorem load_end (linked : Linked d nodes) : d.load (slotAfter nodes) = .ok 0 := by
  have chain := linked_iff_chain.mp linked
  rw [← List.append_nil (nodes.map NodeRep.qset)] at chain
  rw [slotAfter_qset]
  exact load_cursor chain

theorem followLoop_grants (linked : Linked d nodes) (granted : v.answer d.calls d.heap ≠ 0) (n : Nat) (cur : Addr) :
    followLoop v (n + 1) d (slotAfter nodes) cur =
      followLoop v n (d.grow p (.node nodes.length) (v.answer d.calls d.heap)) (.next (v.answer d.calls d.heap))
        (v.answer d.calls d.heap) := by
  obtain ⟨d₁, stored, cleared⟩ := store_grows linked (v.fresh _ _ granted)
  rw [followLoop, load_end linked]
  simp only [bind, Except.bind, if_true, vmalloc_granted granted, stored, v.noErr, Bool.false_eq_true, if_false,
    cleared]

theorem qset_mid (linked : Linked d (walked ++ nd :: rest)) :
    d.qset nd.addr = .ok (first rest 0, arrayPtr nd.array) := by
  have holds := linked.holds
  rw [segment_mid] at holds
  exact qset_eq holds

theorem ensureData_grants (linked : Linked d (walked ++ nd :: rest)) (absent : nd.array = none)
    (granted : v.answer d.calls d.heap ≠ 0) :
    ensureData p v d nd.addr = .ok (some (v.answer d.calls d.heap),
      d.grow p (.array walked.length) (v.answer d.calls d.heap)) := by
  have here : (walked ++ nd :: rest)[walked.length]? = some nd := by simp
  have found := lookup_node linked here
  have node := qset_mid linked
  rw [absent] at found node
  have owner : d.owner (.array walked.length) = some nd.addr := (node_eq linked walked.length).trans (congrArg _ here)
  have fresh := v.fresh _ _ granted
  apply ensureData_absent node (vmalloc_granted granted) ?_ (v.noErr _ _) (memset_grows owner found fresh)
  rw [Dev.setData, Dev.qset]
  simp only [(lookup_beside found fresh).2]
  rfl

theorem ensureQuantum_grants {arr : ArrayRep p} {pos : Nat} (linked : Linked d (walked ++ nd.fill arr :: rest))
    (absent : arr.slots[pos]? = some none) (granted : v.answer d.calls d.heap ≠ 0) :
    ensureQuantum p v d arr.addr pos = .ok (some (v.answer d.calls d.heap),
      d.grow p (.quantum walked.length pos) (v.answer d.calls d.heap)) := by
  have here : (walked ++ nd.fill arr :: rest)[walked.length]? = some (nd.fill arr) := by simp
  have found := lookup_array linked here rfl
  have bound : pos < (arr.slots.map slotPtr).length := by
    rw [List.length_map]
    exact (List.getElem?_eq_some_iff.mp absent).1
  have empty : d.slot arr.addr pos = .ok 0 := by
    rw [Dev.slot, found]
    simp [absent, slotPtr]
  have owner : d.owner (.quantum walked.length pos) = some arr.addr := by
    show d.route (.array walked.length) = some arr.addr
    rw [route_array linked, here]
    rfl
  have fresh := v.fresh _ _ granted
  apply ensureQuantum_absent empty (vmalloc_granted granted) ?_ (v.noErr _ _) (memset_grows owner found fresh)
  have inside : (0 : Int) ≤ pos ∧ (pos : Int) < (arr.slots.map slotPtr).length := by omega
  rw [Dev.setSlot]
  simp only [(lookup_beside found fresh).2, if_pos inside]
  rfl

end Grow

/-! ### Asking for what is needed -/

/-- `x` asks for what `d` lacks of `needs`: it goes wrong if a block is refused, and otherwise it
leaves a device that was given them. -/
inductive Asks (p : Params) (v : Vmalloc) (d : Dev) (needs : List Route) {α : Type} (x : Except Oops (α × Dev))
    (Q : α → Dev → Prop) : Prop where
  | refused {e : Oops} (failed : x = .error e) (lacks : ∀ more, Refused p v d (needs ++ more))
  | granted {y : α} {d' : Dev} (ran : x = .ok (y, d')) (post : Q y d')
      (same : ∀ more, Refused p v d (needs ++ more) ↔ Refused p v d' more)

section Asks

variable {v : Vmalloc} {d : Dev} {needs : List Route} {r : Route} {α : Type} {x : Except Oops (α × Dev)}
  {Q : α → Dev → Prop}

theorem refused_present (present : d.route r ≠ none) : Refused p v d (r :: needs) ↔ Refused p v d needs := by
  rw [Refused, if_neg present]

theorem refused_absent (absent : d.route r = none) :
    Refused p v d (r :: needs) ↔
      v.answer d.calls d.heap = 0 ∨ Refused p v (d.grow p r (v.answer d.calls d.heap)) needs := by
  rw [Refused, if_pos absent]

theorem Asks.present (present : d.route r ≠ none) (asks : Asks p v d needs x Q) : Asks p v d (r :: needs) x Q := by
  cases asks with
  | refused failed lacks => exact .refused failed fun more => (refused_present present).mpr (lacks more)
  | granted ran post same => exact .granted ran post fun more => (refused_present present).trans (same more)

theorem Asks.grow (absent : d.route r = none) (granted : v.answer d.calls d.heap ≠ 0)
    (asks : Asks p v (d.grow p r (v.answer d.calls d.heap)) needs x Q) : Asks p v d (r :: needs) x Q := by
  have step : ∀ more, Refused p v d (r :: more) ↔ Refused p v (d.grow p r (v.answer d.calls d.heap)) more :=
    fun more => (refused_absent absent).trans (or_iff_right granted)
  cases asks with
  | refused failed lacks => exact .refused failed fun more => (step _).mpr (lacks more)
  | granted ran post same => exact .granted ran post fun more => (step _).trans (same more)

theorem Asks.none (absent : d.route r = none) (refused : v.answer d.calls d.heap = 0) (fails : ∀ y, x ≠ .ok y) :
    Asks p v d (r :: needs) x Q := by
  cases outcome : x with
  | ok y => exact absurd outcome (fails y)
  | error e => exact .refused rfl fun more => (refused_absent absent).mpr (Or.inl refused)

theorem Asks.nothing {y : α} (ran : x = .ok (y, d)) (post : Q y d) : Asks p v d [] x Q :=
  .granted ran post fun _ => Iff.rfl

/-- What comes after `x`, and asks for `more`, is reached and gets it exactly if nothing is refused. -/
theorem Asks.runs_iff (asks : Asks p v d needs x Q) (more : List Route) {K : α → Dev → Prop}
    (next : ∀ y d', Q y d' → (K y d' ↔ ¬ Refused p v d' more)) :
    (∃ y d', x = .ok (y, d') ∧ K y d') ↔ ¬ Refused p v d (needs ++ more) := by
  cases asks with
  | refused failed lacks =>
    refine iff_of_false ?_ (not_not_intro (lacks more))
    rintro ⟨y, d', ran, _⟩
    cases failed.symm.trans ran
  | @granted y d' ran post same =>
    rw [same, ← next y d' post]
    constructor
    · rintro ⟨y', d'', ran', later⟩
      cases ran.symm.trans ran'
      exact later
    · exact fun later => ⟨y, d', ran, later⟩

/-- A single block, that `x` takes if it is there and asks for if it is not. -/
theorem asks_one (present : d.route r ≠ none → ∃ y, x = .ok (y, d))
    (grants : d.route r = none → v.answer d.calls d.heap ≠ 0 →
      ∃ y, x = .ok (y, d.grow p r (v.answer d.calls d.heap)))
    (given : d.route r = none → ∀ y, x = .ok y → v.answer d.calls d.heap ≠ 0)
    (post : ∀ y d', x = .ok (y, d') → Q y d') : Asks p v d [r] x Q := by
  by_cases absent : d.route r = none
  · by_cases refused : v.answer d.calls d.heap = 0
    · exact Asks.none absent refused fun y ran => given absent y ran refused
    · obtain ⟨y, ran⟩ := grants absent refused
      exact (Asks.nothing ran (post y _ ran)).grow absent refused
  · obtain ⟨y, ran⟩ := present absent
    exact (Asks.nothing ran (post y _ ran)).present absent

end Asks

section Write

variable {v : Vmalloc} {d : Dev} {walked rest : List (NodeRep p)} {nd : NodeRep p}

theorem grow_linked {nodes : List (NodeRep p)} (linked : Linked d nodes) (granted : v.answer d.calls d.heap ≠ 0) :
    Linked (d.grow p (.node nodes.length) (v.answer d.calls d.heap))
      (nodes ++ [emptyNode p (v.answer d.calls d.heap) granted (v.noErr _ _)]) := by
  obtain ⟨x, d', fresh, chain, _, _, passed⟩ :=
    followLoop_extends v.total_succeeds (linked_iff_chain.mp linked)
  have ran : followLoop v 1 d (slotAfter nodes) 0 = .ok _ := followLoop_grants linked granted 0 0
  have same := (followLoop_follows v.follows_total linked.null trivial ran).1
  rw [slotAfter_qset, passed] at same
  obtain ⟨addr, device⟩ := Prod.mk.inj (Except.ok.inj same)
  rw [← device, linked_iff_chain]
  have node : x = (emptyNode p (v.answer d.calls d.heap) granted (v.noErr _ _)).qset := Qset.ext addr fresh.data
  rw [node] at chain
  simpa [emptyNode, arrayCells] using chain

/-- The walk, from the slot after `walked` on. -/
theorem followLoop_asks (m : Nat) (linked : Linked d (walked ++ rest)) :
    Asks p v d ((List.range' walked.length m).map .node)
      (followLoop v m d (slotAfter walked) (reached (walked.map NodeRep.qset) 0))
      fun cur d' => ∃ passed ahead : List (NodeRep p), Linked d' (passed ++ ahead) ∧
        passed.length = walked.length + m ∧ cur = reached (passed.map NodeRep.qset) 0 := by
  induction m generalizing d walked rest with
  | zero => exact Asks.nothing rfl ⟨walked, rest, linked, rfl, rfl⟩
  | succ m ih =>
    have onward : ∀ (nd : NodeRep p) (rest : List (NodeRep p)) (e : Dev), Linked e (walked ++ nd :: rest) →
        Asks p v e ((List.range' (walked.length + 1) m).map .node) (followLoop v m e (.next nd.addr) nd.addr)
          fun cur d' => ∃ passed ahead : List (NodeRep p), Linked d' (passed ++ ahead) ∧
            passed.length = walked.length + (m + 1) ∧ cur = reached (passed.map NodeRep.qset) 0 := by
      intro nd rest e linked
      have passed : Linked e ((walked ++ [nd]) ++ rest) := by rwa [List.append_assoc]
      have asks := ih passed
      simpa [slotAfter, reached, NodeRep.qset, Nat.add_assoc, Nat.add_comm 1 m] using asks
    rw [List.range'_succ, List.map_cons]
    cases rest with
    | cons nd rest =>
      have found : d.route (.node walked.length) ≠ none := by
        rw [Dev.route, node_eq linked]
        simp
      have chain := linked_iff_chain.mp linked
      rw [List.map_append, List.map_cons] at chain
      rw [slotAfter_qset, followLoop_along chain, cursor_concat]
      exact (onward nd rest d linked).present found
    | nil =>
      rw [List.append_nil] at linked
      have absent : d.route (.node walked.length) = none := by
        rw [Dev.route, node_eq linked]
        simp
      by_cases refused : v.answer d.calls d.heap = 0
      · refine Asks.none absent refused fun y ran => ?_
        rw [followLoop, load_end linked] at ran
        obtain ⟨_, _, given, _⟩ :=
          alloc_returned (fun a d => d.store a (slotAfter walked)) linked.null (fun _ _ _ => store_stored) ran
        exact given refused
      · rw [followLoop_grants linked refused]
        exact (onward _ [] _ (grow_linked linked refused)).grow absent refused

theorem scullFollow_asks {nodes : List (NodeRep p)} (linked : Linked d nodes) {idx : Nat} (small : idx < 2 ^ 31 - 1) :
    Asks p v d ((List.range (idx + 1)).map .node) (scullFollow v d idx) fun cur d' =>
      ∃ (walked rest : List (NodeRep p)) (nd : NodeRep p), Linked d' (walked ++ nd :: rest) ∧ walked.length = idx ∧
        cur = nd.addr := by
  have ahead : Linked d ([] ++ nodes) := linked
  rw [scullFollow_eq v d small, List.range_eq_range']
  cases followLoop_asks (v := v) (idx + 1) ahead with
  | refused failed lacks => exact .refused failed lacks
  | granted ran post same =>
    obtain ⟨passed, rest, linked', length, rfl⟩ := post
    obtain ⟨walked, nd, rfl⟩ : ∃ walked nd, passed = walked ++ [nd] := by
      rcases List.eq_nil_or_concat passed with rfl | ⟨walked, nd, rfl⟩
      · simp at length
      · exact ⟨walked, nd, List.concat_eq_append⟩
    refine .granted ran ⟨walked, rest, nd, ?_, ?_, ?_⟩ same
    · rwa [List.append_assoc] at linked'
    · simpa using length
    · simp [reached, NodeRep.qset]

theorem ensureData_asks (linked : Linked d (walked ++ nd :: rest)) :
    Asks p v d [.array walked.length] (ensureData p v d nd.addr) fun data d' =>
      ∃ arr : ArrayRep p, data = some arr.addr ∧ Linked d' (walked ++ nd.fill arr :: rest) := by
  have node := qset_mid linked
  have route : d.route (.array walked.length) = nd.array.map ArrayRep.addr := by
    rw [route_array linked, List.getElem?_append_right (Nat.le_refl _), Nat.sub_self]
    rfl
  apply asks_one
  · intro present
    rw [route, ne_eq, Option.map_eq_none_iff] at present
    obtain ⟨arr, array⟩ := Option.ne_none_iff_exists'.mp present
    rw [array] at node
    exact ⟨some arr.addr, ensureData_present node arr.nonnull⟩
  · intro absent granted
    rw [route, Option.map_eq_none_iff] at absent
    exact ⟨_, ensureData_grants linked absent granted⟩
  · intro absent y ran
    rw [route, Option.map_eq_none_iff] at absent
    rw [absent] at node
    rw [ensureData, node] at ran
    obtain ⟨_, _, given, _⟩ :=
      alloc_returned (fun a d => d.setData nd.addr a) linked.null (fun _ _ _ => setData_stored) ran
    exact given
  · intro y d' ran
    obtain ⟨arr, _, total, linked', _⟩ := ensureData_spec v.total_succeeds linked
    rw [(ensureData_follows v.follows_total linked.null trivial ran).1] at total
    cases total
    exact ⟨arr, rfl, linked'⟩

theorem ensureQuantum_asks {arr : ArrayRep p} (linked : Linked d (walked ++ nd.fill arr :: rest)) {pos : Nat}
    (bound : pos < p.qset) :
    Asks p v d [.quantum walked.length pos] (ensureQuantum p v d arr.addr pos) fun ptr _ => ptr ≠ none := by
  obtain ⟨left, slot, right, split, rfl⟩ := split_at (i := pos) (by rwa [arr.whole])
  have loaded := slot_split split linked.holds
  have route : d.route (.quantum walked.length left.length) = slot.map QuantumRep.addr := by
    rw [route_quantum linked, List.getElem?_append_right (Nat.le_refl _), Nat.sub_self]
    simp [NodeRep.fill, split]
  apply asks_one
  · intro present
    rw [route, ne_eq, Option.map_eq_none_iff] at present
    obtain ⟨q, rfl⟩ := Option.ne_none_iff_exists'.mp present
    exact ⟨some q.addr, ensureQuantum_present loaded q.nonnull⟩
  · intro absent granted
    rw [route, Option.map_eq_none_iff] at absent
    exact ⟨_, ensureQuantum_grants linked (by simp [split, absent]) granted⟩
  · intro absent y ran
    rw [route, Option.map_eq_none_iff] at absent
    rw [absent] at loaded
    rw [ensureQuantum, loaded] at ran
    obtain ⟨_, _, given, _⟩ :=
      alloc_returned (fun a d => d.setSlot arr.addr left.length a) linked.null (fun _ _ _ => setSlot_stored) ran
    exact given
  · rintro y d' ran rfl
    obtain ⟨q, _, total, _⟩ := ensureQuantum_spec v.total_succeeds linked bound
    rw [(ensureQuantum_follows v.follows_total linked.null trivial ran).1] at total
    cases total

end Write

/-! ### The semaphore plays no part -/

section Down

variable {v : Vmalloc}

theorem node_down (d : Dev) (i : Nat) : d.down.node i = d.node i := by
  induction i with
  | zero => rfl
  | succ i ih =>
    rw [Dev.node, Dev.node, ih]
    rfl

theorem route_down (d : Dev) (r : Route) : d.down.route r = d.route r := by
  cases r with
  | node i => exact node_down d i
  | array i =>
    rw [Dev.route, Dev.route, node_down]
    rfl
  | quantum i j =>
    rw [Dev.route, Dev.route, node_down]
    rfl

theorem grow_down (d : Dev) (r : Route) (a : Addr) : d.down.grow p r a = (d.grow p r a).down := by
  have owner : d.down.owner r = d.owner r := by
    cases r with
    | node i =>
      cases i with
      | zero => rfl
      | succ i => exact node_down d i
    | array i => exact node_down d i
    | quantum i j => exact route_down d (.array i)
  simp only [Dev.grow, Dev.aimed, owner]
  rfl

theorem refused_down (d : Dev) (needs : List Route) : Refused p v d.down needs ↔ Refused p v d needs := by
  induction needs generalizing d with
  | nil => exact Iff.rfl
  | cons r needs ih =>
    simp only [Refused, route_down, grow_down, ih]
    exact Iff.rfl

end Down

end Ldd3.Scull
