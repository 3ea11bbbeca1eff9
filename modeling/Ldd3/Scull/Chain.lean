import Ldd3.Scull.Device

/-!
The list of nodes that hangs from `dev->data`, and `scull_follow` on it. The walk goes through a
pointer to a pointer: it starts at `dev->data`, moves on to the `next` field of each node it comes to,
and where it finds `NULL` it stores a new node through that pointer.

`Hangs` follows the pointers from node to node in whatever heap the list is part of. For the walk the
heap is taken apart into the cells of the list, `links`, and all others: the part of the list that was
walked, the part ahead and the rest of the heap stay apart, and an edit touches one cell.
-/

namespace Ldd3.Scull

open Base.Heap Base.Words

/-! ### Memory -/

theorem vmalloc_fresh {v : Vmalloc} (succeeds : ∀ n h, v.answer n h ≠ 0) (d : Dev) :
    ∃ a, a ≠ 0 ∧ isErr a = false ∧ a ∉ d.heap ∧
      d.vmalloc v = (a, { d with heap := d.heap.insert a .raw, calls := d.calls + 1 }) := by
  have nonnull := succeeds d.calls d.heap
  refine ⟨v.answer d.calls d.heap, nonnull, v.noErr _ _, v.fresh _ _ nonnull, ?_⟩
  rw [Dev.vmalloc]
  simp only [if_neg nonnull]

section Cells

variable {d : Dev} {before after : List (Addr × Block)} {a : Addr}

theorem qset_eq {next data : Addr} (holds : Holds d.heap (before ++ (a, .qset next data) :: after)) :
    d.qset a = .ok (next, data) := by
  rw [Dev.qset, holds.lookup]

theorem setNext_eq {next data : Addr} (holds : Holds d.heap (before ++ (a, .qset next data) :: after)) (ptr : Addr) :
    d.setNext a ptr = .ok { d with heap := d.heap.insert a (.qset ptr data) } := by
  rw [Dev.setNext, qset_eq holds]
  rfl

theorem setData_eq {next data : Addr} (holds : Holds d.heap (before ++ (a, .qset next data) :: after)) (ptr : Addr) :
    d.setData a ptr = .ok { d with heap := d.heap.insert a (.qset next ptr) } := by
  rw [Dev.setData, qset_eq holds]
  rfl

theorem memset_eq {b : Block} (holds : Holds d.heap (before ++ (a, b) :: after)) (zeros : Block) :
    d.memset a zeros = .ok { d with heap := d.heap.insert a zeros } :=
  if_pos (Finmap.mem_iff.mpr ⟨b, holds.lookup⟩)

theorem vfree_eq {b : Block} (nonnull : a ≠ 0) (holds : Holds d.heap (before ++ (a, b) :: after)) :
    d.vfree a = .ok { d with heap := d.heap.erase a } := by
  rw [Dev.vfree, if_neg nonnull, if_pos (Finmap.mem_iff.mpr ⟨b, holds.lookup⟩)]

theorem slot_eq {ptrs : List Addr} (holds : Holds d.heap (before ++ (a, .slots ptrs) :: after)) (i : Nat)
    (bound : i < ptrs.length) : d.slot a i = .ok ptrs[i] := by
  rw [Dev.slot, holds.lookup]
  simp [bound]

theorem setSlot_eq {ptrs : List Addr} (holds : Holds d.heap (before ++ (a, .slots ptrs) :: after)) (i : Nat)
    (bound : i < ptrs.length) (ptr : Addr) :
    d.setSlot a i ptr = .ok { d with heap := d.heap.insert a (.slots (ptrs.set i ptr)) } := by
  rw [Dev.setSlot, holds.lookup]
  simp [bound]

end Cells

/-! ### A `vmalloc` that never fails -/

/-- The address above all live blocks, past the error codes when it would be one. -/
def Heap.above (h : Heap) : Addr :=
  if h.keys.sup id + 1 < 2 ^ 64 - 4095 then h.keys.sup id + 1 else h.keys.sup id + 2 ^ 64

theorem Heap.lt_above (h : Heap) : h.keys.sup id < h.above := by
  unfold Heap.above
  split
  · exact Nat.lt_succ_self _
  · exact Nat.lt_add_of_pos_right (by decide)

theorem Heap.above_fresh (h : Heap) : h.above ∉ h := by
  intro live
  have below : h.above ≤ h.keys.sup id := Finset.le_sup (f := id) (Finmap.mem_keys.mpr live)
  exact Nat.not_le.mpr h.lt_above below

theorem Heap.above_noErr (h : Heap) : isErr h.above = false := by
  unfold Heap.above
  split
  · rename_i low
    simp only [isErr, decide_eq_false (Nat.not_le.mpr low), Bool.false_and]
  · have high : ¬ h.keys.sup id + 2 ^ 64 < 2 ^ 64 := Nat.not_lt.mpr (Nat.le_add_left _ _)
    simp only [isErr, decide_eq_false high, Bool.and_false]

theorem Heap.above_nonnull (h : Heap) : h.above ≠ 0 :=
  Nat.ne_of_gt (Nat.lt_of_le_of_lt (Nat.zero_le _) h.lt_above)

/-- A `vmalloc` that never fails. -/
def upwards : Vmalloc := ⟨fun _ h => h.above, fun _ h _ => h.above_fresh, fun _ h => h.above_noErr⟩

theorem upwards_succeeds (n : Nat) (h : Heap) : upwards.answer n h ≠ 0 := h.above_nonnull

/-! ### The list -/

@[ext] structure Qset where
  addr : Addr
  data : Addr
  nonnull : addr ≠ 0

/-- `ptr` leads to the first of `nodes` and the `next` field of each to the one after it; the last one's
is `NULL`. -/
def Hangs (h : Heap) : Addr → List Qset → Prop
  | ptr, [] => ptr = 0
  | ptr, nd :: rest => ptr = nd.addr ∧ ∃ next, h.lookup nd.addr = some (.qset next nd.data) ∧ Hangs h next rest

/-- The address of the first node, or `tail` if there is none. -/
def Qset.first : List Qset → Addr → Addr
  | [], tail => tail
  | nd :: _, _ => nd.addr

def Qset.links : List Qset → Addr → List (Addr × Block)
  | [], _ => []
  | nd :: rest, tail => (nd.addr, .qset (Qset.first rest tail) nd.data) :: Qset.links rest tail

open Qset

theorem Qset.first_append (xs ys : List Qset) (tail : Addr) : first (xs ++ ys) tail = first xs (first ys tail) := by
  cases xs <;> rfl

theorem Qset.links_append (xs ys : List Qset) (tail : Addr) :
    links (xs ++ ys) tail = links xs (first ys tail) ++ links ys tail := by
  induction xs with
  | nil => rfl
  | cons nd rest ih => rw [List.cons_append, links, links, ih, first_append, List.cons_append]

theorem Qset.links_addr (nodes : List Qset) (tail : Addr) : (links nodes tail).map Prod.fst = nodes.map Qset.addr := by
  induction nodes with
  | nil => rfl
  | cons nd rest ih => rw [links, List.map_cons, List.map_cons, ih]

variable {h : Heap} {nodes : List Qset}

theorem Hangs.ptr_eq {ptr : Addr} (hangs : Hangs h ptr nodes) : ptr = first nodes 0 := by
  cases nodes with
  | nil => exact hangs
  | cons nd rest => exact hangs.1

theorem Hangs.unique {ptr : Addr} {other : List Qset} (hangs : Hangs h ptr nodes) (also : Hangs h ptr other) :
    nodes = other := by
  induction nodes generalizing ptr other with
  | nil =>
    cases other with
    | nil => rfl
    | cons nd' _ => exact absurd (also.1.symm.trans hangs) nd'.nonnull
  | cons nd rest ih =>
    obtain ⟨here, next, found, later⟩ := hangs
    cases other with
    | nil => exact absurd (here.symm.trans also) nd.nonnull
    | cons nd' rest' =>
      obtain ⟨here', next', found', later'⟩ := also
      have addr : nd.addr = nd'.addr := here.symm.trans here'
      rw [addr, found', Option.some.injEq, Block.qset.injEq] at found
      obtain ⟨rfl, data⟩ := found
      have node : nd = nd' := Qset.ext addr data.symm
      rw [node, ih later later']

theorem Hangs.suffix {ptr : Addr} {before after : List Qset} {nd : Qset} (hangs : Hangs h ptr (before ++ nd :: after)) :
    Hangs h nd.addr (nd :: after) := by
  induction before generalizing ptr with
  | nil => exact ⟨rfl, hangs.2⟩
  | cons _ before ih =>
    obtain ⟨_, next, _, later⟩ := hangs
    exact ih later

/-- A list that came back to one of its nodes would not end. -/
theorem Hangs.distinct {ptr : Addr} (hangs : Hangs h ptr nodes) : (nodes.map Qset.addr).Nodup := by
  induction nodes generalizing ptr with
  | nil => exact List.nodup_nil
  | cons nd rest ih =>
    have whole := hangs
    obtain ⟨here, next, found, later⟩ := hangs
    refine List.nodup_cons.mpr ⟨?_, ih later⟩
    intro again
    obtain ⟨nd', member, addr⟩ := List.mem_map.mp again
    obtain ⟨before, after, rfl⟩ := List.append_of_mem member
    have shorter : Hangs h ptr (nd' :: after) := by
      rw [here, ← addr]
      exact later.suffix
    have lengths := congrArg List.length (whole.unique shorter)
    simp only [List.length_cons, List.length_append] at lengths
    omega

theorem Hangs.found {ptr : Addr} (hangs : Hangs h ptr nodes) : ∀ c ∈ links nodes 0, h.lookup c.1 = some c.2 := by
  induction nodes generalizing ptr with
  | nil => exact List.forall_mem_nil _
  | cons nd rest ih =>
    obtain ⟨_, next, found, later⟩ := hangs
    rw [later.ptr_eq] at found
    exact List.forall_mem_cons.mpr ⟨found, ih later⟩

theorem hangs_of_found (found : ∀ c ∈ links nodes 0, h.lookup c.1 = some c.2) : Hangs h (first nodes 0) nodes := by
  induction nodes with
  | nil => rfl
  | cons nd rest ih =>
    obtain ⟨here, later⟩ := List.forall_mem_cons.mp found
    exact ⟨rfl, first rest 0, here, ih later⟩

/-- The list with the rest of the heap around it. -/
structure Chain (d : Dev) (nodes : List Qset) (others : List (Addr × Block)) : Prop where
  head : d.data = first nodes 0
  holds : Holds d.heap (links nodes 0 ++ others)

variable {d : Dev} {others : List (Addr × Block)}

theorem Hangs.chain (hangs : Hangs d.heap d.data nodes) : ∃ others, Chain d nodes others := by
  have distinct : ((links nodes 0).map Prod.fst).Nodup := by
    rw [links_addr]
    exact hangs.distinct
  obtain ⟨others, holds⟩ := holds_frame distinct hangs.found
  exact ⟨others, hangs.ptr_eq, holds⟩

theorem Chain.hangs (chain : Chain d nodes others) : Hangs d.heap d.data nodes := by
  rw [chain.head]
  apply hangs_of_found
  intro c member
  exact (chain.holds.exact c.1 c.2).mpr (List.mem_append_left _ member)

theorem Chain.framed (chain : Chain d nodes others) {a : Addr} {b : Block} (found : d.heap.lookup a = some b)
    (outside : a ∉ nodes.map Qset.addr) : (a, b) ∈ others := by
  refine (List.mem_append.mp ((chain.holds.exact a b).mp found)).resolve_left ?_
  intro member
  rw [← links_addr nodes 0] at outside
  exact outside (List.mem_map.mpr ⟨(a, b), member, rfl⟩)

/-! ### Passes of the loop -/

/-- `qtr` after the passes that walked along `walked`. -/
def cursor (walked : List Qset) : Slot :=
  match walked.getLast? with
  | none => .head
  | some nd => .next nd.addr

/-- `cur` after these passes. -/
def reached (walked : List Qset) (cur : Addr) : Addr := (walked.getLast?.map Qset.addr).getD cur

theorem cursor_concat (walked : List Qset) (nd : Qset) : cursor (walked ++ [nd]) = .next nd.addr := by
  simp [cursor]

theorem reached_append (xs ys : List Qset) (cur : Addr) : reached (xs ++ ys) cur = reached ys (reached xs cur) := by
  unfold reached
  rw [List.getLast?_append]
  cases ys.getLast? <;> rfl

variable {walked rest : List Qset}

theorem load_cursor (chain : Chain d (walked ++ rest) others) : d.load (cursor walked) = .ok (first rest 0) := by
  rcases List.eq_nil_or_concat walked with rfl | ⟨earlier, nd, rfl⟩
  · exact congrArg Except.ok chain.head
  · have holds := chain.holds
    rw [List.concat_eq_append, links_append, links_append, List.append_assoc, List.append_assoc] at holds
    have node : d.qset nd.addr = .ok (first rest 0, nd.data) := qset_eq holds
    rw [List.concat_eq_append, cursor_concat, Dev.load, node]
    rfl

/-- Storing through the cursor links the end of the list to the new pointer. -/
theorem store_cursor (ptr : Addr) (chain : Chain d nodes others) :
    ∃ d', d.store ptr (cursor nodes) = .ok d' ∧ d'.data = first nodes ptr ∧
      Holds d'.heap (links nodes ptr ++ others) ∧ d'.sema = d.sema ∧ d'.calls = d.calls := by
  obtain ⟨head, holds⟩ := chain
  rcases List.eq_nil_or_concat nodes with rfl | ⟨earlier, nd, rfl⟩
  · exact ⟨{ d with data := ptr }, rfl, rfl, holds, rfl, rfl⟩
  · rw [List.concat_eq_append] at *
    rw [links_append, List.append_assoc] at holds
    refine ⟨{ d with heap := d.heap.insert nd.addr (.qset ptr nd.data) }, ?_, ?_, ?_, rfl, rfl⟩
    · rw [cursor_concat]
      exact setNext_eq holds ptr
    · rw [head, first_append, first_append]
      rfl
    · rw [links_append, List.append_assoc]
      exact holds.store _

/-- A pass that finds a node moves on to it, whatever `vmalloc` would answer. -/
theorem followLoop_along {nd : Qset} (chain : Chain d (walked ++ nd :: rest) others) (v : Vmalloc) (n : Nat)
    (cur : Addr) :
    followLoop v (n + 1) d (cursor walked) cur = followLoop v n d (cursor (walked ++ [nd])) nd.addr := by
  have loaded : d.load (cursor walked) = .ok nd.addr := load_cursor chain
  rw [followLoop, loaded, cursor_concat]
  simp only [bind, Except.bind, if_neg nd.nonnull]

theorem followLoop_walks (v : Vmalloc) {m : Nat} (chain : Chain d (walked ++ rest) others)
    (present : m ≤ rest.length) (n : Nat) (cur : Addr) :
    followLoop v (m + n) d (cursor walked) cur =
      followLoop v n d (cursor (walked ++ rest.take m)) (reached (rest.take m) cur) := by
  induction m generalizing walked rest cur with
  | zero => simp [reached]
  | succ m ih =>
    cases rest with
    | nil => cases present
    | cons nd rest =>
      have moved : Chain d ((walked ++ [nd]) ++ rest) others := by rwa [List.append_assoc]
      have last : reached ((nd :: rest).take (m + 1)) cur = reached (rest.take m) nd.addr :=
        reached_append [nd] (rest.take m) cur
      rw [Nat.add_right_comm, followLoop_along chain, ih moved (Nat.le_of_succ_le_succ present), last,
        List.take_succ_cons, List.append_assoc, List.singleton_append]

theorem reached_take {idx : Nat} {nd : Qset} (indexed : nodes[idx]? = some nd) (cur : Addr) :
    reached (nodes.take (idx + 1)) cur = nd.addr := by
  unfold reached
  rw [List.take_add_one, indexed, Option.toList_some, List.getLast?_concat]
  rfl

theorem scullFollow_eq (v : Vmalloc) (d : Dev) {idx : Nat} (small : idx < 2 ^ 31 - 1) :
    scullFollow v d idx = followLoop v (idx + 1) d (cursor []) 0 := by
  have finite : ¬ ((idx : Int) = 2 ^ 31 - 1) := by omega
  rw [scullFollow, if_neg finite, show ((idx : Int) + 1).toNat = idx + 1 by omega]
  rfl

theorem scullFollow_negative (v : Vmalloc) (d : Dev) {idx : Int} (negative : idx < 0) :
    scullFollow v d idx = .ok (0, d) := by
  have finite : ¬ (idx = 2 ^ 31 - 1) := by omega
  rw [scullFollow, if_neg finite, show (idx + 1).toNat = 0 by omega]
  rfl

/-- A node that is there is found, and nothing is allocated. -/
theorem scullFollow_present (v : Vmalloc) (chain : Chain d nodes others) {idx : Nat} (small : idx < 2 ^ 31 - 1)
    {nd : Qset} (indexed : nodes[idx]? = some nd) : scullFollow v d idx = .ok (nd.addr, d) := by
  have ahead : Chain d ([] ++ nodes) others := chain
  obtain ⟨present, _⟩ := List.getElem?_eq_some_iff.mp indexed
  have walks := followLoop_walks v ahead present 0 0
  rw [reached_take indexed] at walks
  rw [scullFollow_eq v d small]
  exact walks

/-- What `vmalloc` and `memset` make of a new node. -/
structure Fresh (nd : Qset) : Prop where
  data : nd.data = 0
  noErr : isErr nd.addr = false

section Succeeding

variable {v : Vmalloc} (succeeds : ∀ n h, v.answer n h ≠ 0)

include succeeds

/-- A pass that finds no node links an empty one to the end. -/
theorem followLoop_extends (chain : Chain d nodes others) :
    ∃ nd d', Fresh nd ∧ Chain d' (nodes ++ [nd]) others ∧ d'.sema = d.sema ∧ d'.calls = d.calls + 1 ∧
      ∀ n cur, followLoop v (n + 1) d (cursor nodes) cur = followLoop v n d' (cursor (nodes ++ [nd])) nd.addr := by
  obtain ⟨a, nonnull, noErr, fresh, allocated⟩ := vmalloc_fresh succeeds d
  have ended : Chain d (nodes ++ []) others := by rwa [List.append_nil]
  have loaded : d.load (cursor nodes) = .ok 0 := load_cursor ended
  have grown : Chain { d with heap := d.heap.insert a .raw, calls := d.calls + 1 } nodes ((a, .raw) :: others) :=
    ⟨chain.head, chain.holds.alloc fresh .raw⟩
  obtain ⟨d₁, stored, head, holds, sema, calls⟩ := store_cursor a grown
  refine ⟨⟨a, 0, nonnull⟩, { d₁ with heap := d₁.heap.insert a (.qset 0 0) }, ⟨rfl, noErr⟩, ⟨?_, ?_⟩, sema, calls, ?_⟩
  · rw [first_append]
    exact head
  · rw [links_append, List.append_assoc]
    exact holds.store _
  · intro n cur
    rw [followLoop, loaded, cursor_concat]
    simp only [bind, Except.bind, if_true, allocated, stored, noErr, Bool.false_eq_true, if_false,
      memset_eq holds]

theorem followLoop_beyond (m : Nat) (chain : Chain d nodes others) :
    ∃ more d', (∀ nd ∈ more, Fresh nd) ∧ more.length = m ∧ Chain d' (nodes ++ more) others ∧
      d'.sema = d.sema ∧ d'.calls = d.calls + m ∧
      ∀ n cur, followLoop v (m + n) d (cursor nodes) cur =
        followLoop v n d' (cursor (nodes ++ more)) (reached more cur) := by
  induction m generalizing d nodes with
  | zero =>
    refine ⟨[], d, List.forall_mem_nil _, rfl, by rwa [List.append_nil], rfl, rfl, fun n cur => ?_⟩
    simp [reached]
  | succ m ih =>
    obtain ⟨nd, d₁, fresh, chain₁, sema₁, calls₁, passed⟩ := followLoop_extends succeeds chain
    obtain ⟨more, d', later, length, chain', sema', calls', ran⟩ := ih chain₁
    refine ⟨nd :: more, d', List.forall_mem_cons.mpr ⟨fresh, later⟩, by rw [List.length_cons, length], ?_,
      sema'.trans sema₁, by omega, fun n cur => ?_⟩
    · rwa [List.append_assoc] at chain'
    · have last : reached (nd :: more) cur = reached more nd.addr := reached_append [nd] more cur
      rw [Nat.add_right_comm, passed, ran, last, List.append_assoc, List.singleton_append]

/-- `m` passes walk along the nodes ahead, and then append an empty node each. -/
theorem followLoop_passes (m : Nat) (chain : Chain d (walked ++ rest) others) :
    ∃ more d', (∀ nd ∈ more, Fresh nd) ∧ more.length = m - rest.length ∧ Chain d' (walked ++ rest ++ more) others ∧
      d'.sema = d.sema ∧ d'.calls = d.calls + more.length ∧
      ∀ n cur, followLoop v (m + n) d (cursor walked) cur =
        followLoop v n d' (cursor (walked ++ (rest ++ more).take m)) (reached ((rest ++ more).take m) cur) := by
  by_cases present : m ≤ rest.length
  · refine ⟨[], d, List.forall_mem_nil _, (Nat.sub_eq_zero_of_le present).symm, by rwa [List.append_nil], rfl, rfl, ?_⟩
    intro n cur
    rw [List.append_nil]
    exact followLoop_walks v chain present n cur
  · obtain ⟨extra, rfl⟩ : ∃ extra, m = rest.length + extra := ⟨m - rest.length, by omega⟩
    obtain ⟨more, d', fresh, length, chain', sema, calls, ran⟩ := followLoop_beyond succeeds extra chain
    refine ⟨more, d', fresh, by omega, chain', sema, by rw [calls, length], ?_⟩
    intro n cur
    have whole : (rest ++ more).take (rest.length + extra) = rest ++ more :=
      List.take_of_length_le (by rw [List.length_append, length])
    rw [whole, reached_append, ← List.append_assoc, Nat.add_assoc,
      followLoop_walks v chain (Nat.le_refl _), List.take_length, ran]

/-- The node at an index, on a list made long enough for it. To follow the list to a later index is
then the same as to do so on the list that the call left. -/
theorem scullFollow_chain (chain : Chain d nodes others) {idx : Nat} (small : idx < 2 ^ 31 - 1) :
    ∃ more cur d', scullFollow v d idx = .ok (cur.addr, d') ∧ Chain d' (nodes ++ more) others ∧
      (∀ nd ∈ more, Fresh nd) ∧ more.length = idx + 1 - nodes.length ∧ (nodes ++ more)[idx]? = some cur ∧
      d'.sema = d.sema ∧ d'.calls = d.calls + more.length ∧
      ∀ later, idx ≤ later → later < 2 ^ 31 - 1 → scullFollow v d later = scullFollow v d' later := by
  have ahead : Chain d ([] ++ nodes) others := chain
  obtain ⟨more, d', fresh, length, chain', sema, calls, ran⟩ := followLoop_passes succeeds (idx + 1) ahead
  have again : Chain d' ([] ++ (nodes ++ more)) others := chain'
  have bound : idx < (nodes ++ more).length := by
    rw [List.length_append]
    omega
  have indexed : (nodes ++ more)[idx]? = some (nodes ++ more)[idx] := List.getElem?_eq_getElem bound
  refine ⟨more, (nodes ++ more)[idx], d', ?_, chain', fresh, length, indexed, sema, calls, ?_⟩
  · have result := ran 0 0
    rw [reached_take indexed] at result
    rw [scullFollow_eq v d small]
    exact result
  · intro later reaches small'
    have passes : later + 1 = idx + 1 + (later - idx) := by omega
    have walks := followLoop_walks v again bound (later - idx) 0
    rw [scullFollow_eq v d small', scullFollow_eq v d' small', passes, ran, walks]

/-- The node that a smaller index leads to is part of the list that is left in the end: both ways to
`idx`, with and without a stop at `j`, end in one device, and it has one list. -/
theorem scullFollow_prior (chain : Chain d nodes others) {j idx : Nat} (upTo : j ≤ idx) (small : idx < 2 ^ 31 - 1)
    {cur : Addr} {d' : Dev} (followed : scullFollow v d idx = .ok (cur, d')) {final : List Qset}
    (chain' : Chain d' final others) :
    ∃ nd dj, scullFollow v d j = .ok (nd.addr, dj) ∧ final[j]? = some nd := by
  obtain ⟨more, nd, dj, followedJ, chainJ, _, _, indexed, _, _, resumes⟩ :=
    scullFollow_chain succeeds chain (Nat.lt_of_le_of_lt upTo small)
  obtain ⟨behind, _, _, resumed, chainK, _⟩ := scullFollow_chain succeeds chainJ small
  have same : final = nodes ++ more ++ behind := by
    rw [resumes idx upTo small, resumed, Except.ok.injEq, Prod.mk.injEq] at followed
    obtain ⟨_, rfl⟩ := followed
    exact chain'.hangs.unique chainK.hangs
  refine ⟨nd, dj, followedJ, ?_⟩
  rw [same, List.getElem?_append_left (List.getElem?_eq_some_iff.mp indexed).1, indexed]

end Succeeding

/-! ### Indexing with extension -/

/-- `scull_follow` returns the node at `idx` and leaves a list that has one: the old nodes, and behind
them empty ones. Every index up to `idx` then leads to the node that it led to before, and nothing is
allocated for that. -/
theorem follow_indexes {v : Vmalloc} (succeeds : ∀ n h, v.answer n h ≠ 0) (hangs : Hangs d.heap d.data nodes)
    {idx : Int} (low : 0 ≤ idx) (high : idx < 2 ^ 31 - 1) :
    ∃ more cur d', scullFollow v d idx = .ok (cur.addr, d') ∧ Hangs d'.heap d'.data (nodes ++ more) ∧
      (nodes ++ more).length = max nodes.length (idx.toNat + 1) ∧ (nodes ++ more)[idx.toNat]? = some cur ∧
      (∀ nd ∈ more, nd.data = 0) ∧ d'.calls = d.calls + more.length ∧
      (∀ a b, d.heap.lookup a = some b → a ∉ nodes.map Qset.addr → d'.heap.lookup a = some b) ∧
      ∀ j ≤ idx, ∃ a dj, scullFollow v d j = .ok (a, dj) ∧ (∀ w, scullFollow w d' j = .ok (a, d')) ∧
        (0 ≤ j → (nodes ++ more)[j.toNat]?.map Qset.addr = some a) := by
  obtain ⟨others, chain⟩ := hangs.chain
  obtain ⟨idx, rfl⟩ := Int.eq_ofNat_of_zero_le low
  have small : idx < 2 ^ 31 - 1 := by omega
  obtain ⟨more, cur, d', followed, chain', fresh, length, indexed, _, calls, _⟩ :=
    scullFollow_chain succeeds chain small
  refine ⟨more, cur, d', followed, chain'.hangs, ?_, indexed, fun nd member => (fresh nd member).data, calls, ?_, ?_⟩
  · rw [List.length_append, Int.toNat_natCast]
    omega
  · intro a b found outside
    exact (chain'.holds.exact a b).mpr (List.mem_append_right _ (chain.framed found outside))
  · intro j upTo
    by_cases negative : j < 0
    · exact ⟨0, d, scullFollow_negative v d negative, fun w => scullFollow_negative w d' negative,
        fun nonneg => absurd negative (Int.not_lt.mpr nonneg)⟩
    · obtain ⟨j, rfl⟩ := Int.eq_ofNat_of_zero_le (Int.not_lt.mp negative)
      have before : j ≤ idx := by omega
      have smallJ : j < 2 ^ 31 - 1 := Nat.lt_of_le_of_lt before small
      obtain ⟨nd, dj, followedJ, indexedJ⟩ := scullFollow_prior succeeds chain before small followed chain'
      refine ⟨nd.addr, dj, followedJ, fun w => scullFollow_present w chain' smallJ indexedJ, fun _ => ?_⟩
      rw [Int.toNat_natCast, indexedJ]
      rfl

def oneNode : Dev := ⟨5, 1, Finmap.singleton 5 (.qset 0 9), 0⟩

theorem follow_indexes_two_more :
    ∃ nodes, Hangs oneNode.heap oneNode.data nodes ∧ ∃ more cur d',
      scullFollow upwards oneNode 2 = .ok (cur.addr, d') ∧ Hangs d'.heap d'.data (nodes ++ more) ∧
      (nodes ++ more).length = 3 ∧ (nodes ++ more)[2]? = some cur ∧ (∀ nd ∈ more, nd.data = 0) ∧
      d'.calls = more.length := by
  have hangs : Hangs oneNode.heap oneNode.data [⟨5, 9, by decide⟩] :=
    ⟨rfl, 0, Finmap.lookup_singleton_eq, rfl⟩
  obtain ⟨more, cur, d', followed, hangs', length, indexed, empty, calls, _⟩ :=
    @follow_indexes _ oneNode upwards upwards_succeeds hangs 2 (by decide) (by decide)
  exact ⟨_, hangs, more, cur, d', followed, hangs', length, indexed, empty, calls.trans (Nat.zero_add _)⟩

end Ldd3.Scull
