import Ldd3.Scull.Failure
import Ldd3.Scull.Store

/-!
Who owns the blocks of the device. A `Route` is a way from `dev->data` to a block: along the list,
into the array of a node, into a slot of that array. In every state that in-range calls can reach,
every live block is at the end of exactly one route and every route ends at a live block of its kind,
so nothing is shared, nothing leaks and the list does not come back to itself. A trim then frees
every live block exactly once.
-/

namespace Ldd3.Scull

open Base.Heap Base.Words

variable {p : Params}

inductive Route where
  | node (i : Nat)
  | array (i : Nat)
  | quantum (i j : Nat)
  deriving DecidableEq

def target (a : Addr) : Option Addr := if a = 0 then none else some a

def Dev.nextOf (d : Dev) (a : Addr) : Option Addr :=
  match d.heap.lookup a with
  | some (.qset next _) => target next
  | _ => none

def Dev.dataOf (d : Dev) (a : Addr) : Option Addr :=
  match d.heap.lookup a with
  | some (.qset _ data) => target data
  | _ => none

def Dev.slotOf (d : Dev) (j : Nat) (a : Addr) : Option Addr :=
  match d.heap.lookup a with
  | some (.slots ptrs) => ptrs[j]?.bind target
  | _ => none

def Dev.node (d : Dev) : Nat → Option Addr
  | 0 => target d.data
  | i + 1 => (d.node i).bind d.nextOf

def Dev.route (d : Dev) : Route → Option Addr
  | .node i => d.node i
  | .array i => (d.node i).bind d.dataOf
  | .quantum i j => ((d.node i).bind d.dataOf).bind (d.slotOf j)

/-! ### The routes of a linked list -/

section Routes

variable {d : Dev} {nodes : List (NodeRep p)}

def routedSlots (i : Nat) : Nat → List (Option (QuantumRep p)) → List (Route × Addr)
  | _, [] => []
  | j, none :: slots => routedSlots i (j + 1) slots
  | j, some q :: slots => (.quantum i j, q.addr) :: routedSlots i (j + 1) slots

def routedArray (i : Nat) : Option (ArrayRep p) → List (Route × Addr)
  | none => []
  | some a => (.array i, a.addr) :: routedSlots i 0 a.slots

def routed : Nat → List (NodeRep p) → List (Route × Addr)
  | _, [] => []
  | i, nd :: rest => (.node i, nd.addr) :: (routedArray i nd.array ++ routed (i + 1) rest)

theorem routedSlots_addr (i j : Nat) (slots : List (Option (QuantumRep p))) :
    (routedSlots i j slots).map Prod.snd = (slots.flatMap slotCells).map Prod.fst := by
  induction slots generalizing j with
  | nil => rfl
  | cons slot slots ih =>
    cases slot with
    | none => exact ih (j + 1)
    | some q => simp only [routedSlots, List.map_cons, ih, List.flatMap_cons, slotCells, List.singleton_append]

theorem routedArray_addr (i : Nat) (array : Option (ArrayRep p)) :
    (routedArray i array).map Prod.snd = (arrayCells array).map Prod.fst := by
  cases array with
  | none => rfl
  | some a => simp only [routedArray, arrayCells, List.map_cons, routedSlots_addr]

theorem routed_addr (i : Nat) (nodes : List (NodeRep p)) (tail : Addr) :
    (routed i nodes).map Prod.snd = (segment nodes tail).map Prod.fst := by
  induction nodes generalizing i with
  | nil => rfl
  | cons nd rest ih =>
    simp only [routed, segment, NodeRep.cells, List.map_cons, List.map_append, List.cons_append, routedArray_addr, ih]

theorem mem_routedSlots {i j : Nat} {slots : List (Option (QuantumRep p))} {r : Route} {a : Addr} :
    (r, a) ∈ routedSlots i j slots ↔ ∃ k q, slots[k]? = some (some q) ∧ r = .quantum i (j + k) ∧ a = q.addr := by
  induction slots generalizing j with
  | nil => simp [routedSlots]
  | cons slot slots ih =>
    rw [← Nat.or_exists_add_one]
    simp only [List.getElem?_cons_zero, List.getElem?_cons_succ, Nat.add_zero, ← Nat.add_assoc]
    simp only [Nat.add_right_comm j _ 1]
    cases slot with
    | none => simp [routedSlots, ih]
    | some q => simp [routedSlots, ih]

theorem mem_routedArray {i : Nat} {array : Option (ArrayRep p)} {r : Route} {a : Addr} :
    (r, a) ∈ routedArray i array ↔ ∃ arr, array = some arr ∧
      ((r = .array i ∧ a = arr.addr) ∨ ∃ j q, arr.slots[j]? = some (some q) ∧ r = .quantum i j ∧ a = q.addr) := by
  cases array with
  | none => simp [routedArray]
  | some arr => simp [routedArray, mem_routedSlots]

theorem mem_routed {i : Nat} {nodes : List (NodeRep p)} {r : Route} {a : Addr} :
    (r, a) ∈ routed i nodes ↔ ∃ k nd, nodes[k]? = some nd ∧
      ((r = .node (i + k) ∧ a = nd.addr) ∨ (r, a) ∈ routedArray (i + k) nd.array) := by
  induction nodes generalizing i with
  | nil => simp [routed]
  | cons nd rest ih =>
    rw [← Nat.or_exists_add_one]
    simp only [List.getElem?_cons_zero, List.getElem?_cons_succ, Nat.add_zero, ← Nat.add_assoc]
    simp only [Nat.add_right_comm i _ 1]
    simp [routed, ih, or_assoc]

theorem target_nonnull {a : Addr} (nonnull : a ≠ 0) : target a = some a := if_neg nonnull

theorem target_first (nodes : List (NodeRep p)) : target (first nodes 0) = nodes.head?.map NodeRep.addr := by
  cases nodes with
  | nil => rfl
  | cons nd rest => exact target_nonnull nd.nonnull

theorem lookup_node (linked : Linked d nodes) {i : Nat} {nd : NodeRep p} (found : nodes[i]? = some nd) :
    d.heap.lookup nd.addr = some (.qset (first (nodes.drop (i + 1)) 0) (arrayPtr nd.array)) := by
  obtain ⟨bound, rfl⟩ := List.getElem?_eq_some_iff.mp found
  have split : nodes = nodes.take i ++ nodes[i] :: nodes.drop (i + 1) := by
    rw [List.getElem_cons_drop, List.take_append_drop]
  have holds := linked.holds
  rw [split, segment_mid] at holds
  exact holds.lookup

theorem node_eq (linked : Linked d nodes) (i : Nat) : d.node i = nodes[i]?.map NodeRep.addr := by
  induction i with
  | zero => rw [Dev.node, linked.head, target_first, List.head?_eq_getElem?]
  | succ i ih =>
    rw [Dev.node, ih]
    cases found : nodes[i]? with
    | none =>
      have past : nodes.length ≤ i := List.getElem?_eq_none_iff.mp found
      rw [List.getElem?_eq_none (by omega)]
      rfl
    | some nd =>
      have next : d.nextOf nd.addr = target (first (nodes.drop (i + 1)) 0) := by
        rw [Dev.nextOf, lookup_node linked found]
      rw [Option.map_some, Option.bind_some, next, target_first, List.head?_drop]

theorem dataOf_eq (linked : Linked d nodes) {i : Nat} {nd : NodeRep p} (found : nodes[i]? = some nd) :
    d.dataOf nd.addr = nd.array.map ArrayRep.addr := by
  rw [Dev.dataOf, lookup_node linked found]
  cases nd.array with
  | none => rfl
  | some arr => exact target_nonnull arr.nonnull

theorem mem_segment {i : Nat} {nd : NodeRep p} (found : nodes[i]? = some nd) {cell : Addr × Block}
    (member : cell ∈ arrayCells nd.array) : cell ∈ segment nodes 0 := by
  obtain ⟨bound, rfl⟩ := List.getElem?_eq_some_iff.mp found
  have split : nodes = nodes.take i ++ nodes[i] :: nodes.drop (i + 1) := by
    rw [List.getElem_cons_drop, List.take_append_drop]
  rw [split, segment_mid]
  exact List.mem_append_right _ (List.mem_cons_of_mem _ (List.mem_append_left _ member))

theorem lookup_array (linked : Linked d nodes) {i : Nat} {nd : NodeRep p} (found : nodes[i]? = some nd)
    {arr : ArrayRep p} (array : nd.array = some arr) :
    d.heap.lookup arr.addr = some (.slots (arr.slots.map slotPtr)) := by
  refine (linked.holds.exact _ _).mpr (mem_segment found ?_)
  rw [array]
  exact List.mem_cons_self

theorem lookup_quantum (linked : Linked d nodes) {i : Nat} {nd : NodeRep p} (found : nodes[i]? = some nd)
    {arr : ArrayRep p} (array : nd.array = some arr) {q : QuantumRep p} (slot : some q ∈ arr.slots) :
    d.heap.lookup q.addr = some (.quantum q.bytes) := by
  refine (linked.holds.exact _ _).mpr (mem_segment found ?_)
  rw [array]
  exact List.mem_cons_of_mem _ (List.mem_flatMap.mpr ⟨some q, slot, List.mem_singleton_self _⟩)

theorem slotOf_eq (linked : Linked d nodes) {i : Nat} {nd : NodeRep p} (found : nodes[i]? = some nd)
    {arr : ArrayRep p} (array : nd.array = some arr) (j : Nat) :
    d.slotOf j arr.addr = arr.slots[j]?.join.map QuantumRep.addr := by
  rw [Dev.slotOf, lookup_array linked found array]
  simp only [List.getElem?_map]
  cases arr.slots[j]? with
  | none => rfl
  | some slot =>
    cases slot with
    | none => rfl
    | some q => exact target_nonnull q.nonnull

theorem route_array (linked : Linked d nodes) (i : Nat) :
    d.route (.array i) = nodes[i]?.bind fun nd => nd.array.map ArrayRep.addr := by
  rw [Dev.route, node_eq linked]
  cases found : nodes[i]? with
  | none => rfl
  | some nd => exact dataOf_eq linked found

theorem route_quantum (linked : Linked d nodes) (i j : Nat) :
    d.route (.quantum i j) =
      nodes[i]?.bind fun nd => nd.array.bind fun arr => arr.slots[j]?.join.map QuantumRep.addr := by
  have outer : d.route (.quantum i j) = (d.route (.array i)).bind (d.slotOf j) := rfl
  rw [outer, route_array linked]
  cases found : nodes[i]? with
  | none => rfl
  | some nd =>
    simp only [Option.bind_some]
    cases array : nd.array with
    | none => rfl
    | some arr => exact slotOf_eq linked found array j

theorem route_iff (linked : Linked d nodes) (r : Route) (a : Addr) :
    d.route r = some a ↔ (r, a) ∈ routed 0 nodes := by
  rw [mem_routed]
  simp only [Nat.zero_add, mem_routedArray]
  cases r with
  | node i =>
    rw [Dev.route, node_eq linked, Option.map_eq_some_iff]
    constructor
    · rintro ⟨nd, found, rfl⟩
      exact ⟨i, nd, found, Or.inl ⟨rfl, rfl⟩⟩
    · rintro ⟨k, nd, found, ⟨same, rfl⟩ | ⟨arr, _, ⟨same, _⟩ | ⟨j, q, _, same, _⟩⟩⟩ <;> cases same
      exact ⟨nd, found, rfl⟩
  | array i =>
    rw [route_array linked, Option.bind_eq_some_iff]
    constructor
    · rintro ⟨nd, found, reached⟩
      obtain ⟨arr, array, rfl⟩ := Option.map_eq_some_iff.mp reached
      exact ⟨i, nd, found, Or.inr ⟨arr, array, Or.inl ⟨rfl, rfl⟩⟩⟩
    · rintro ⟨k, nd, found, ⟨same, _⟩ | ⟨arr, array, ⟨same, rfl⟩ | ⟨j, q, _, same, _⟩⟩⟩ <;> cases same
      exact ⟨nd, found, Option.map_eq_some_iff.mpr ⟨arr, array, rfl⟩⟩
  | quantum i j =>
    rw [route_quantum linked, Option.bind_eq_some_iff]
    constructor
    · rintro ⟨nd, found, reached⟩
      obtain ⟨arr, array, reached⟩ := Option.bind_eq_some_iff.mp reached
      obtain ⟨q, slot, rfl⟩ := Option.map_eq_some_iff.mp reached
      exact ⟨i, nd, found, Or.inr ⟨arr, array, Or.inr ⟨j, q, Option.join_eq_some_iff.mp slot, rfl, rfl⟩⟩⟩
    · rintro ⟨k, nd, found, ⟨same, _⟩ | ⟨arr, array, ⟨same, _⟩ | ⟨l, q, slot, same, rfl⟩⟩⟩ <;> cases same
      refine ⟨nd, found, Option.bind_eq_some_iff.mpr ⟨arr, array, Option.map_eq_some_iff.mpr ⟨q, ?_, rfl⟩⟩⟩
      exact Option.join_eq_some_iff.mpr slot

theorem live_iff_route (linked : Linked d nodes) (a : Addr) : a ∈ d.heap ↔ ∃ r, d.route r = some a := by
  rw [linked.holds.mem_iff, ← routed_addr 0 nodes 0, List.mem_map]
  constructor
  · rintro ⟨⟨r, _⟩, member, rfl⟩
    exact ⟨r, (route_iff linked r _).mpr member⟩
  · rintro ⟨r, reached⟩
    exact ⟨(r, a), (route_iff linked r a).mp reached, rfl⟩

theorem route_unique (linked : Linked d nodes) {r r' : Route} {a : Addr} (one : d.route r = some a)
    (other : d.route r' = some a) : r = r' := by
  have distinct : ((routed 0 nodes).map Prod.snd).Nodup := by
    rw [routed_addr 0 nodes 0]
    exact linked.holds.distinct
  have same := List.inj_on_of_nodup_map distinct ((route_iff linked r a).mp one) ((route_iff linked r' a).mp other)
  exact (Prod.mk.inj (same rfl)).1

theorem list_ends (linked : Linked d nodes) : ∃ n, d.node n = none := by
  refine ⟨nodes.length, ?_⟩
  rw [node_eq linked, List.getElem?_eq_none (Nat.le_refl _)]
  rfl

end Routes

/-! ### Ownership -/

/-- Every block is where one route ends, and an array has an entry for each slot. -/
structure Owned (p : Params) (d : Dev) : Prop where
  live : ∀ a, a ∈ d.heap ↔ ∃ r, d.route r = some a
  once : ∀ r r' a, d.route r = some a → d.route r' = some a → r = r'
  ends : ∃ n, d.node n = none
  nodes : ∀ i a, d.route (.node i) = some a → ∃ next data, d.heap.lookup a = some (.qset next data)
  arrays : ∀ i a, d.route (.array i) = some a → ∃ ptrs, d.heap.lookup a = some (.slots ptrs) ∧
    ptrs.length = p.qset ∧
    ∀ ptr ∈ ptrs, ptr = 0 ∨ ∃ bytes, d.heap.lookup ptr = some (.quantum bytes) ∧ bytes.length = p.quantum
  quanta : ∀ i j a, d.route (.quantum i j) = some a →
    ∃ bytes, d.heap.lookup a = some (.quantum bytes) ∧ bytes.length = p.quantum

/-- A trim frees each live block once, and nothing is left. -/
def TrimsAll (p : Params) (d : Dev) : Prop :=
  ∃ log d', scullTrimLog p d = .ok (log, d') ∧ scullTrim p d false = .ok d' ∧ log.Nodup ∧
    (∀ a, a ∈ log ↔ a ∈ d.heap) ∧ d'.heap = ∅ ∧ d'.data = 0

theorem Linked.owned {d : Dev} {nodes : List (NodeRep p)} (linked : Linked d nodes) : Owned p d where
  live := live_iff_route linked
  once _ _ _ := route_unique linked
  ends := list_ends linked
  nodes := by
    intro i a reached
    rw [Dev.route, node_eq linked] at reached
    obtain ⟨nd, found, rfl⟩ := Option.map_eq_some_iff.mp reached
    exact ⟨_, _, lookup_node linked found⟩
  arrays := by
    intro i a reached
    rw [route_array linked] at reached
    obtain ⟨nd, found, reached⟩ := Option.bind_eq_some_iff.mp reached
    obtain ⟨arr, array, rfl⟩ := Option.map_eq_some_iff.mp reached
    refine ⟨_, lookup_array linked found array, by rw [List.length_map, arr.whole], ?_⟩
    intro ptr member
    obtain ⟨slot, listed, rfl⟩ := List.mem_map.mp member
    cases slot with
    | none => exact Or.inl rfl
    | some q => exact Or.inr ⟨q.bytes, lookup_quantum linked found array listed, q.whole⟩
  quanta := by
    intro i j a reached
    rw [route_quantum linked] at reached
    obtain ⟨nd, found, reached⟩ := Option.bind_eq_some_iff.mp reached
    obtain ⟨arr, array, reached⟩ := Option.bind_eq_some_iff.mp reached
    obtain ⟨q, slot, rfl⟩ := Option.map_eq_some_iff.mp reached
    have listed := List.mem_of_getElem? (Option.join_eq_some_iff.mp slot)
    exact ⟨q.bytes, lookup_quantum linked found array listed, q.whole⟩

theorem Linked.trimsAll {d : Dev} {nodes : List (NodeRep p)} (linked : Linked d nodes) : TrimsAll p d := by
  obtain ⟨d', ran, linked', _⟩ := scullTrimLog_spec linked
  have order := freed_perm_segment nodes 0
  refine ⟨_, d', ran, (scullTrim_logs p d).of_ok ran, order.nodup_iff.mpr linked.holds.distinct, ?_,
    linked'.holds.eq_empty, linked'.head⟩
  intro a
  rw [order.mem_iff, linked.holds.mem_iff]

/-- The devices that calls reach whose allocations succeed and whose offsets an `int` index can
count. -/
inductive Kept (p : Params) : Dev → Prop where
  | started : Kept p Dev.started
  | read {d : Dev} {r : Done} (v : Vmalloc) (succeeds : ∀ n h, v.answer n h ≠ 0) (signal : Bool) {off : Nat}
      (inRange : off < (2 ^ 31 - 1) * (p.quantum * p.qset)) (len fault : Nat) :
      Kept p d → scullRead p v d signal off len fault = .ok r → Kept p r.dev
  | write {d : Dev} {r : Done} (v : Vmalloc) (succeeds : ∀ n h, v.answer n h ≠ 0) (signal : Bool) {off : Nat}
      (inRange : off < (2 ^ 31 - 1) * (p.quantum * p.qset)) (user : List UInt8) (fault : Nat) :
      Kept p d → scullWrite p v d signal off user fault = .ok r → Kept p r.dev
  | trim {d d' : Dev} (signal : Bool) : Kept p d → scullTrim p d signal = .ok d' → Kept p d'

theorem Kept.reached {d : Dev} (kept : Kept p d) : Reached p d := by
  induction kept with
  | started => exact .started
  | read v _ signal _ len fault _ ran ih => exact .read v signal _ len fault ih ran
  | write v _ signal _ user fault _ ran ih => exact .write v signal _ user fault ih ran
  | trim signal _ ran ih => exact .trim signal ih ran

/-- In every state that in-range calls reach, each live block has one owner, and a trim frees each
of them once. -/
theorem blocks_owned {d : Dev} (kept : Kept p d) : Owned p d ∧ TrimsAll p d := by
  obtain ⟨nodes, linked⟩ := kept.reached.linked
  exact ⟨linked.owned, linked.trimsAll⟩

/-- A write in the second list node: two nodes, an array and a quantum. -/
theorem blocks_owned_second_node :
    ∃ r, scullWrite .loaded upwards .started false (123 : Nat) [97] 0 = .ok r ∧
      r.dev.heap.keys.card = 4 ∧ Owned .loaded r.dev ∧ TrimsAll .loaded r.dev := by
  have inRange : 123 < (2 ^ 31 - 1) * (Params.loaded.quantum * Params.loaded.qset) := by decide
  have counted : (scullWrite .loaded upwards .started false (123 : Nat) [97] 0).map
      (fun r => r.dev.heap.keys.card) = .ok 4 := by
    decide +kernel
  obtain ⟨_, _, _, _, _, ran⟩ := scullWrite_spec upwards_succeeds linked_started (at_placeOf inRange) [97] 0
  rw [ran] at counted
  exact ⟨_, ran, Except.ok.inj counted,
    blocks_owned (Kept.write upwards upwards_succeeds false inRange [97] 0 .started ran)⟩

end Ldd3.Scull
