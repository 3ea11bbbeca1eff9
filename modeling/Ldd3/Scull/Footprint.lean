import Ldd3.Scull.Ownership

/-!
How much memory the device holds. A read walks to its node as a write does, and `scull_follow`
allocates what is missing on the way, so a read far out costs a list node for every step there. A
write also needs the array and the quantum of its place. Nothing but a trim gives anything back.

The blocks that are live after any run of calls that return are therefore those that the calls since
the last trim have needed, each once.
-/

namespace Ldd3.Scull

variable {p : Params}

/-- A call as far as memory goes. One that a signal stops at the semaphore does nothing. -/
inductive Visit where
  | read (signal : Bool) (off : Int)
  | write (signal : Bool) (off : Int)
  | trim (signal : Bool)

inductive History (p : Params) : List Visit → Dev → Prop where
  | started : History p [] Dev.started
  | read {log : List Visit} {d : Dev} {r : Done} (v : Vmalloc) (signal : Bool) (off : Int) (len fault : Nat) :
      History p log d → scullRead p v d signal off len fault = .ok r → History p (log ++ [.read signal off]) r.dev
  | write {log : List Visit} {d : Dev} {r : Done} (v : Vmalloc) (signal : Bool) (off : Int) (user : List UInt8)
      (fault : Nat) : History p log d → scullWrite p v d signal off user fault = .ok r →
      History p (log ++ [.write signal off]) r.dev
  | trim {log : List Visit} {d d' : Dev} (signal : Bool) :
      History p log d → scullTrim p d signal = .ok d' → History p (log ++ [.trim signal]) d'

/-! ### What a call needs -/

def walk (idx : Nat) : Finset Route := (Finset.range (idx + 1)).image .node

def readNeeds (p : Params) (off : Int) : Finset Route := walk (p.index off).toNat

def writeNeeds (p : Params) (off : Int) : Finset Route :=
  walk (p.index off).toNat ∪ {.array (p.index off).toNat, .quantum (p.index off).toNat (p.pos off).toNat}

def Visit.needs (p : Params) : Visit → Finset Route
  | .read false off => readNeeds p off
  | .write false off => writeNeeds p off
  | _ => ∅

def Visit.trims : Visit → Bool
  | .trim false => true
  | _ => false

/-- The blocks that the calls since the last trim have needed. -/
def footprint (p : Params) (log : List Visit) : Finset Route :=
  log.foldl (fun live visit => if visit.trims then ∅ else live ∪ visit.needs p) ∅

theorem footprint_snoc (log : List Visit) (visit : Visit) :
    footprint p (log ++ [visit]) = if visit.trims then ∅ else footprint p log ∪ visit.needs p := by
  simp [footprint]

theorem mem_footprint (log : List Visit) (r : Route) :
    r ∈ footprint p log ↔ ∃ prior visit later, log = prior ++ visit :: later ∧
      (∀ w ∈ visit :: later, w.trims = false) ∧ r ∈ visit.needs p := by
  induction log using List.reverseRecOn with
  | nil => simp [footprint]
  | append_singleton log visit ih =>
    rw [footprint_snoc]
    constructor
    · intro member
      split at member
      · simp at member
      · rename_i keeps
        rcases Finset.mem_union.mp member with earlier | now
        · obtain ⟨prior, first, later, rfl, none, needs⟩ := ih.mp earlier
          refine ⟨prior, first, later ++ [visit], by simp, ?_, needs⟩
          intro w listed
          rcases List.mem_append.mp (List.cons_append ▸ listed : w ∈ (first :: later) ++ [visit]) with old | last
          · exact none w old
          · rw [List.mem_singleton.mp last]
            exact Bool.eq_false_iff.mpr keeps
        · exact ⟨log, visit, [], rfl, by simpa using keeps, now⟩
    · rintro ⟨prior, first, later, split, none, needs⟩
      cases later using List.reverseRecOn with
      | nil =>
        obtain ⟨rfl, same⟩ := List.append_inj' split rfl
        cases same
        rw [if_neg (by simpa using none)]
        exact Finset.mem_union_right _ needs
      | append_singleton later last =>
        rw [← List.cons_append, ← List.append_assoc] at split
        obtain ⟨rfl, same⟩ := List.append_inj' split rfl
        cases same
        have keeps : visit.trims = false := none visit (by simp)
        rw [if_neg (by simp [keeps])]
        refine Finset.mem_union_left _ (ih.mpr ⟨prior, first, later, rfl, ?_, needs⟩)
        intro w listed
        exact none w (by simp at listed ⊢; tauto)

theorem mem_walk {idx : Nat} {r : Route} : r ∈ walk idx ↔ ∃ i, i ≤ idx ∧ r = .node i := by
  simp only [walk, Finset.mem_image, Finset.mem_range, Nat.lt_succ_iff]
  exact exists_congr fun i => and_congr_right fun _ => eq_comm

/-! ### The blocks of a list of nodes -/

def Has (nodes : List (NodeRep p)) : Route → Prop
  | .node i => i < nodes.length
  | .array i => ∃ nd, nodes[i]? = some nd ∧ nd.array ≠ none
  | .quantum i j => contents nodes i j ≠ none

theorem slotBytes_ne_none (slot : Option (Option (QuantumRep p))) : slotBytes slot ≠ none ↔ slot.join ≠ none := by
  cases slot with
  | none => simp [slotBytes]
  | some slot => cases slot <;> simp [slotBytes]

theorem has_iff_route {d : Dev} {nodes : List (NodeRep p)} (linked : Linked d nodes) (r : Route) :
    Has nodes r ↔ d.route r ≠ none := by
  cases r with
  | node i =>
    rw [Dev.route, node_eq linked]
    simp [Has]
  | array i =>
    rw [route_array linked]
    cases found : nodes[i]? <;> simp [Has, found]
  | quantum i j =>
    rw [route_quantum linked]
    cases found : nodes[i]? with
    | none => simp [Has, contents, found]
    | some nd =>
      cases array : nd.array with
      | none => simp [Has, contents, found, NodeRep.quantumAt, array]
      | some arr =>
        have slot := slotBytes_ne_none arr.slots[j]?
        simpa [Has, contents, found, NodeRep.quantumAt, array] using slot

theorem has_append {nodes more : List (NodeRep p)} (empties : ∀ nd ∈ more, nd.array = none) (r : Route) :
    Has (nodes ++ more) r ↔ Has nodes r ∨ ∃ i, i < nodes.length + more.length ∧ r = .node i := by
  cases r with
  | node i =>
    simp only [Has, List.length_append, Route.node.injEq, exists_eq_right']
    omega
  | array i =>
    simp only [Has, reduceCtorEq, and_false, exists_false, or_false]
    by_cases inside : i < nodes.length
    · rw [List.getElem?_append_left inside]
    · rw [List.getElem?_append_right (by omega), List.getElem?_eq_none (l := nodes) (by omega)]
      constructor
      · rintro ⟨nd, found, some⟩
        exact absurd (empties nd (List.mem_of_getElem? found)) some
      · rintro ⟨nd, found, _⟩
        cases found
  | quantum i j => simp [Has, contents_append empties]

theorem has_fill {walked rest : List (NodeRep p)} {nd : NodeRep p} (arr : ArrayRep p) (pos : Nat)
    (quanta : ∀ j, (nd.fill arr).quantumAt j ≠ none ↔ nd.quantumAt j ≠ none ∨ j = pos) (r : Route) :
    Has (walked ++ nd.fill arr :: rest) r ↔
      Has (walked ++ nd :: rest) r ∨ r = .array walked.length ∨ r = .quantum walked.length pos := by
  cases r with
  | node i => simp [Has]
  | array i =>
    simp only [Has, Route.array.injEq, reduceCtorEq, or_false]
    by_cases same : i = walked.length
    · subst i
      simp [NodeRep.fill]
    · rcases Nat.lt_or_gt_of_ne same with below | above
      · simp [List.getElem?_append_left below, same]
      · obtain ⟨k, place⟩ : ∃ k, i - walked.length = k + 1 := ⟨i - walked.length - 1, by omega⟩
        rw [List.getElem?_append_right (by omega), List.getElem?_append_right (by omega), place]
        simp [same]
  | quantum i j =>
    simp only [Has, contents_mid, reduceCtorEq, false_or, Route.quantum.injEq]
    by_cases same : i = walked.length
    · rw [if_pos same, if_pos same, quanta]
      simp [same]
    · rw [if_neg same, if_neg same]
      simp [same]

/-! ### One call -/

section Call

variable {v : Vmalloc} {d : Dev} {nodes : List (NodeRep p)} {off : Int} {a : Place p} {fault : Nat} {r : Done}

/-- The walk to a place makes the list as long as it needs. -/
theorem follow_has (succeeds : ∀ n h, v.answer n h ≠ 0) (linked : Linked d nodes) (a : Place p) :
    ∃ (walked rest : List (NodeRep p)) (nd : NodeRep p) (d' : Dev),
      scullFollow v d.down a.idx = .ok (nd.addr, d') ∧ Linked d' (walked ++ nd :: rest) ∧ walked.length = a.idx ∧
      ∀ r, Has (walked ++ nd :: rest) r ↔ Has nodes r ∨ r ∈ walk a.idx := by
  obtain ⟨walked, rest, more, nd, d', followed, linked', _, length, shape, empties, longer⟩ :=
    scullFollow_spec succeeds linked.down a.idx_lt
  refine ⟨walked, rest, nd, d', followed, linked', length, fun r => ?_⟩
  rw [shape, has_append empties, mem_walk]
  cases r with
  | node i =>
    simp only [Has, Route.node.injEq, exists_eq_right']
    omega
  | _ => simp

theorem At.index_toNat (located : At p off a) : (p.index off).toNat = a.idx := by
  rw [located.index]
  rfl

theorem At.pos_toNat (located : At p off a) : (p.pos off).toNat = a.pos := by
  rw [located.pos]
  rfl

theorem read_has {len : Nat} (null : 0 ∉ d.heap) (linked : Linked d nodes)
    (ran : scullRead p v d false off len fault = .ok r) :
    ∃ nodes' : List (NodeRep p), Linked r.dev nodes' ∧ ∀ rt, Has nodes' rt ↔ Has nodes rt ∨ rt ∈ readNeeds p off := by
  obtain ⟨a, located⟩ := scullRead_place null ran
  obtain ⟨curset, d₁, followed, left⟩ := scullRead_walk (scullRead_total null ran)
  obtain ⟨walked, rest, nd, d₂, same, linked₂, _, has⟩ := follow_has v.total_succeeds linked a
  rw [located.index, same] at followed
  cases followed
  rw [left, readNeeds, located.index_toNat]
  exact ⟨_, linked₂.up, has⟩

theorem write_has {user : List UInt8} (null : 0 ∉ d.heap) (linked : Linked d nodes)
    (ran : scullWrite p v d false off user fault = .ok r) :
    ∃ nodes' : List (NodeRep p), Linked r.dev nodes' ∧ ∀ rt, Has nodes' rt ↔ Has nodes rt ∨ rt ∈ writeNeeds p off := by
  obtain ⟨a, located⟩ := scullWrite_place null ran
  have total := v.total_succeeds
  obtain ⟨walked, rest, nd, d₁, followed, linked₁, length, has⟩ := follow_has total linked a
  obtain ⟨arr, d₂, ensured, linked₂, _, kept⟩ := ensureData_spec total linked₁
  obtain ⟨q, d₃, found, linked₃, _, _⟩ := ensureQuantum_spec total linked₂ a.pos_lt
  obtain ⟨d₄, copied, linked₄, _⟩ := copyIn_spec a.pos_lt linked₃ (a.copied_le user fault)
  have left : r.dev = d₄.up := by
    have inside : ¬ a.pos ≥ p.qset := Nat.not_le.mpr a.pos_lt
    have ran := scullWrite_total null ran
    rw [scullWrite, located.index, followed, located.toU64_pos, located.pos, located.offset] at ran
    rw [Place.copied] at copied
    simp only [Bool.false_eq_true, if_false, bind, Except.bind, nd.noErr, if_neg inside, ensured, found,
      located.count, a.toU64_count, copied] at ran
    split at ran <;> cases ran <;> rfl
  refine ⟨_, left ▸ linked₄.up, fun rt => ?_⟩
  rw [has_fill _ a.pos, has, length, writeNeeds, located.index_toNat, located.pos_toNat]
  · simp only [Finset.mem_union, Finset.mem_insert, Finset.mem_singleton, or_assoc]
  · intro j
    rw [quantumAt_set a.pos_lt, kept]
    by_cases same : j = a.pos <;> simp [same]

end Call

/-! ### Runs -/

theorem History.reached {log : List Visit} {d : Dev} (history : History p log d) : Reached p d := by
  induction history with
  | started => exact .started
  | read v signal off len fault _ ran ih => exact .read v signal off len fault ih ran
  | write v signal off user fault _ ran ih => exact .write v signal off user fault ih ran
  | trim signal _ ran ih => exact .trim signal ih ran

theorem History.has {log : List Visit} {d : Dev} (history : History p log d) :
    ∃ nodes : List (NodeRep p), Linked d nodes ∧ ∀ r, Has nodes r ↔ r ∈ footprint p log := by
  induction history with
  | started => exact ⟨[], linked_started, fun r => by cases r <;> simp [Has, contents, footprint]⟩
  | @read log d r v signal off len fault before ran ih =>
    obtain ⟨nodes, linked, has⟩ := ih
    rw [footprint_snoc]
    cases signal with
    | true =>
      cases ran
      exact ⟨nodes, linked, fun rt => by rw [has]; simp [Visit.trims, Visit.needs]⟩
    | false =>
      obtain ⟨nodes', linked', has'⟩ := read_has before.reached.null linked ran
      exact ⟨nodes', linked', fun rt => by rw [has', has]; exact Finset.mem_union.symm⟩
  | @write log d r v signal off user fault before ran ih =>
    obtain ⟨nodes, linked, has⟩ := ih
    rw [footprint_snoc]
    cases signal with
    | true =>
      cases ran
      exact ⟨nodes, linked, fun rt => by rw [has]; simp [Visit.trims, Visit.needs]⟩
    | false =>
      obtain ⟨nodes', linked', has'⟩ := write_has before.reached.null linked ran
      exact ⟨nodes', linked', fun rt => by rw [has', has]; exact Finset.mem_union.symm⟩
  | @trim log d d' signal before ran ih =>
    obtain ⟨nodes, linked, has⟩ := ih
    rw [footprint_snoc]
    cases signal with
    | true =>
      cases ran
      exact ⟨nodes, linked, fun rt => by rw [has]; simp [Visit.trims, Visit.needs]⟩
    | false =>
      obtain ⟨d₁, same, empty, _⟩ := scullTrim_spec linked
      rw [ran] at same
      cases same
      exact ⟨[], empty, fun r => by cases r <;> simp [Has, contents, Visit.trims]⟩

/-- After any run of calls that return, the live blocks are those that the calls since the last trim have
needed, each once. -/
theorem live_since_trim {log : List Visit} {d : Dev} (history : History p log d) :
    (∀ r, d.route r ≠ none ↔ ∃ prior visit later, log = prior ++ visit :: later ∧
      (∀ w ∈ visit :: later, w.trims = false) ∧ r ∈ visit.needs p) ∧
    d.heap.keys.card = (footprint p log).card := by
  obtain ⟨nodes, linked, has⟩ := history.has
  have live : ∀ r, d.route r ≠ none ↔ r ∈ footprint p log := fun r => (has_iff_route linked r).symm.trans (has r)
  refine ⟨fun r => (live r).trans (mem_footprint log r), ?_⟩
  have found : ∀ r ∈ footprint p log, d.route r = some ((d.route r).getD 0) := by
    intro r member
    obtain ⟨a, reached⟩ := Option.ne_none_iff_exists'.mp ((live r).mpr member)
    rw [reached, Option.getD_some]
  have keys : d.heap.keys = (footprint p log).image fun r => (d.route r).getD 0 := by
    ext a
    rw [Finmap.mem_keys, live_iff_route linked, Finset.mem_image]
    constructor
    · rintro ⟨r, reached⟩
      exact ⟨r, (live r).mp (by rw [reached]; exact Option.some_ne_none a), by rw [reached, Option.getD_some]⟩
    · rintro ⟨r, member, rfl⟩
      exact ⟨r, found r member⟩
  rw [keys, Finset.card_image_of_injOn]
  intro r member r' member' same
  refine route_unique linked (found r member) ?_
  rw [found r' member']
  exact congrArg some same.symm

/-- A read in the third node and a write in the second: three nodes, an array and a quantum. -/
theorem live_since_trim_far_read :
    ∃ d, History .loaded [.read false 250, .write false 123] d ∧ d.heap.keys.card = 5 := by
  have third : (250 : Nat) < (2 ^ 31 - 1) * (Params.loaded.quantum * Params.loaded.qset) := by decide
  have second : (123 : Nat) < (2 ^ 31 - 1) * (Params.loaded.quantum * Params.loaded.qset) := by decide
  obtain ⟨_, _, linked, _, _, read⟩ := scullRead_spec upwards_succeeds linked_started (at_placeOf third) 1
  have first := History.read upwards false _ 1 0 .started read
  obtain ⟨nodes, linked⟩ := first.reached.linked
  obtain ⟨_, d, _, _, _, written⟩ := scullWrite_spec upwards_succeeds linked (at_placeOf second) [97] 0
  have history := History.write upwards false _ [97] 0 first written
  have counted : (footprint .loaded [.read false 250, .write false 123]).card = 5 := by decide +kernel
  exact ⟨_, history, (live_since_trim history).2.trans counted⟩

end Ldd3.Scull
