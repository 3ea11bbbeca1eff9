import Ldd3.Base.Trails
import Ldd3.Scull.Refusal

/-!
The elements of a pointer array that the calls touch, and the byte ranges they copy. `trackTrim`,
`trackRead` and `trackWrite` are `scull_trim`, `scull_read` and `scull_write` with a mark at each
access; the `vmalloc` they are given can fail, and the marks before a fault are kept. An element that
a later statement reads again is marked once.

All accesses of reads and trims are inside. A write prints the element after its own, and in the last
slot of an array there is none.
-/

namespace Ldd3.Scull

open Base.Heap Base.Runs Base.Trails Base.Words

inductive Access where
  | elements (low : Int) (n : Nat)
  | bytes (low : Int) (n : Nat)
  deriving DecidableEq

def Access.Inside (p : Params) : Access → Prop
  | .elements low n => 0 ≤ low ∧ low + n ≤ p.qset
  | .bytes low n => 0 ≤ low ∧ low + n ≤ p.quantum

abbrev Tracked := Trail Oops Access

def trackSlot (d : Dev) (a : Addr) (i : Int) : Tracked Addr := do
  mark (.elements i 1)
  lift (d.slot a i)

def trackSetSlot (d : Dev) (a : Addr) (i : Int) (ptr : Addr) : Tracked Dev := do
  mark (.elements i 1)
  lift (d.setSlot a i ptr)

/-! ### The calls with their accesses -/

def trackTrimSlots : Nat → Dev → Addr → Nat → Tracked Dev
  | 0, d, _, _ => pure d
  | n + 1, d, data, i => do
    let ptr ← trackSlot d data i
    let d ← lift (trimQuantum d ptr)
    let d ← trackSetSlot d data i 0
    trackTrimSlots n d data (i + 1)

def trackTrimData (p : Params) (d : Dev) (qtr data : Addr) : Tracked Dev :=
  if data ≠ 0 then do
    let d ← trackTrimSlots p.qset d data 0
    let d ← lift (d.vfree data)
    lift (d.setData qtr 0)
  else pure d

def trackTrimNode (p : Params) (d : Dev) (qtr : Addr) : Tracked (Addr × Dev) := do
  let (_, data) ← lift (d.qset qtr)
  let d ← trackTrimData p d qtr data
  let (next, _) ← lift (d.qset qtr)
  let d ← lift (d.vfree qtr)
  return (next, d)

def trackTrimLoop (p : Params) : Nat → Dev → Addr → Tracked Dev
  | 0, d, qtr => lift (if qtr = 0 then .ok d else .error .hang)
  | n + 1, d, qtr =>
    if qtr = 0 then pure d
    else do
      let (next, d) ← trackTrimNode p d qtr
      trackTrimLoop p n d next

def trackTrim (p : Params) (d : Dev) (signal : Bool) : Tracked Dev :=
  if signal then pure d
  else do
    let d ← trackTrimLoop p d.heap.keys.card d.down d.data
    return ({ d with data := 0 } : Dev).up

def trackRead (p : Params) (v : Vmalloc) (d : Dev) (signal : Bool) (off : Int) (len fault : Nat) : Tracked Done :=
  if signal then pure ⟨.error .EINVAL, [], off, d, []⟩
  else do
    let (curset, d) ← lift (scullFollow v d.down (p.index off))
    if isErr curset then return ⟨.error .EFAULT, [], off, d.up, []⟩
    let (_, data) ← lift (d.qset curset)
    if data = 0 ∨ toU64 (p.pos off) ≥ p.qset then return ⟨.error .EFAULT, [], off, d.up, []⟩
    let ptr ← trackSlot d data (p.pos off)
    if ptr = 0 then return ⟨.error .EFAULT, [], off, d.up, []⟩
    let count := p.count off len
    let left := min fault (toU64 count)
    mark (.bytes (p.offset off) (toU64 count))
    let bytes ← lift (d.copyOut ptr (p.offset off) (toU64 count))
    if left ≠ 0 then return ⟨.error .EAGAIN, bytes.take (toU64 count - left), off, d.up, [p.pos off]⟩
    return ⟨.ok count, bytes, toInt64 (off + count), d.up, [p.pos off]⟩

def trackData (p : Params) (v : Vmalloc) (d : Dev) (qtr : Addr) : Tracked (Option Addr × Dev) := do
  let (_, data) ← lift (d.qset qtr)
  if data = 0 then
    let (a, d) := d.vmalloc v
    let d ← lift (d.setData qtr a)
    if isErr a then return (none, d)
    mark (.elements 0 p.qset)
    let d ← lift (d.memset a (.slots (List.replicate p.qset 0)))
    return (some a, d)
  else return (some data, d)

def trackQuantum (p : Params) (v : Vmalloc) (d : Dev) (data : Addr) (pos : Int) : Tracked (Option Addr × Dev) := do
  let ptr ← trackSlot d data pos
  if ptr = 0 then
    let (a, d) := d.vmalloc v
    let d ← trackSetSlot d data pos a
    if isErr a then return (none, d)
    let d ← lift (d.memset a (.quantum (List.replicate p.quantum 0)))
    return (some a, d)
  else return (some ptr, d)

def trackWrite (p : Params) (v : Vmalloc) (d : Dev) (signal : Bool) (off : Int) (user : List UInt8) (fault : Nat) :
    Tracked Done :=
  if signal then pure ⟨.error .EINVAL, [], off, d, []⟩
  else do
    let (qtr, d) ← lift (scullFollow v d.down (p.index off))
    if isErr qtr then return ⟨.error .EFAULT, [], off, d.up, []⟩
    if toU64 (p.pos off) ≥ p.qset then return ⟨.error .EINVAL, [], off, d.up, []⟩
    let (data, d) ← trackData p v d qtr
    match data with
    | none => return ⟨.error .EFAULT, [], off, d.up, []⟩
    | some data =>
      let (ptr, d) ← trackQuantum p v d data (p.pos off)
      match ptr with
      | none => return ⟨.error .EFAULT, [], off, d.up, []⟩
      | some ptr =>
        -- the two messages
        mark (.elements (p.pos off) 1)
        mark (.elements (p.pos off + 1) 1)
        let count := p.count off user.length
        let left := min fault (toU64 count)
        mark (.bytes (p.offset off) (toU64 count))
        let d ← lift (d.copyIn ptr (p.offset off) (user.take (toU64 count - left) ++ List.replicate left 0))
        if left ≠ 0 then return ⟨.error .EAGAIN, [], off, d.up, [p.pos off, p.pos off + 1]⟩
        return ⟨.ok count, [], toInt64 (off + count), d.up, [p.pos off, p.pos off + 1]⟩

/-! ### Without the marks they are the calls -/

section Results

variable {p : Params} {v : Vmalloc}

theorem trackSlot_result (d : Dev) (a : Addr) (i : Int) : (trackSlot d a i).result = d.slot a i := rfl

theorem trackSetSlot_result (d : Dev) (a : Addr) (i : Int) (ptr : Addr) :
    (trackSetSlot d a i ptr).result = d.setSlot a i ptr := rfl

theorem trackTrimSlots_result (n : Nat) (d : Dev) (data : Addr) (i : Nat) :
    (trackTrimSlots n d data i).result = trimSlots n d data i := by
  induction n generalizing d i with
  | zero => rfl
  | succ n ih =>
    refine result_bind (trackSlot_result d data i) fun ptr => result_bind (result_lift _) fun d₁ => ?_
    exact result_bind (trackSetSlot_result d₁ data i 0) fun d₂ => ih d₂ (i + 1)

theorem trackTrimData_result (d : Dev) (qtr data : Addr) :
    (trackTrimData p d qtr data).result = trimData p d qtr data := by
  unfold trackTrimData trimData
  split
  · exact result_bind (trackTrimSlots_result p.qset d data 0) fun d₁ => result_bind (result_lift _) fun _ => rfl
  · rfl

theorem trackTrimNode_result (d : Dev) (qtr : Addr) : (trackTrimNode p d qtr).result = trimNode p d qtr := by
  refine result_bind (result_lift _) fun fields => result_bind (trackTrimData_result d qtr fields.2) fun d₁ => ?_
  exact result_bind (result_lift _) fun again => result_bind (result_lift _) fun _ => rfl

theorem trackTrimLoop_result (n : Nat) (d : Dev) (qtr : Addr) :
    (trackTrimLoop p n d qtr).result = trimLoop p n d qtr := by
  induction n generalizing d qtr with
  | zero => rfl
  | succ n ih =>
    unfold trackTrimLoop trimLoop
    split
    · rfl
    · exact result_bind (trackTrimNode_result d qtr) fun pair => ih pair.2 pair.1

theorem trackTrim_result (d : Dev) (signal : Bool) : (trackTrim p d signal).result = scullTrim p d signal := by
  unfold trackTrim scullTrim
  split
  · rfl
  · exact result_bind (trackTrimLoop_result _ d.down d.data) fun _ => rfl

theorem trackRead_result (d : Dev) (signal : Bool) (off : Int) (len fault : Nat) :
    (trackRead p v d signal off len fault).result = scullRead p v d signal off len fault := by
  unfold trackRead scullRead
  split
  · rfl
  · refine result_bind (result_lift _) fun ⟨curset, d₁⟩ => ?_
    dsimp only
    split
    · rfl
    · refine result_bind (result_lift _) fun ⟨next, data⟩ => ?_
      dsimp only
      split
      · rfl
      · refine result_bind (trackSlot_result d₁ data (p.pos off)) fun ptr => ?_
        split
        · rfl
        · rw [result_mark_bind]
          refine result_bind (result_lift _) fun bytes => ?_
          split <;> rfl

theorem trackData_result (d : Dev) (qtr : Addr) : (trackData p v d qtr).result = ensureData p v d qtr := by
  refine result_bind (result_lift _) fun ⟨next, data⟩ => ?_
  dsimp only
  split
  · refine result_bind (result_lift _) fun d₁ => ?_
    split
    · rfl
    · rw [result_mark_bind]
      exact result_bind (result_lift _) fun _ => rfl
  · rfl

theorem trackQuantum_result (d : Dev) (data : Addr) (pos : Int) :
    (trackQuantum p v d data pos).result = ensureQuantum p v d data pos := by
  refine result_bind (trackSlot_result d data pos) fun ptr => ?_
  split
  · refine result_bind (trackSetSlot_result _ data pos _) fun d₁ => ?_
    split
    · rfl
    · exact result_bind (result_lift _) fun _ => rfl
  · rfl

theorem trackWrite_result (d : Dev) (signal : Bool) (off : Int) (user : List UInt8) (fault : Nat) :
    (trackWrite p v d signal off user fault).result = scullWrite p v d signal off user fault := by
  unfold trackWrite scullWrite
  split
  · rfl
  · refine result_bind (result_lift _) fun ⟨qtr, d₁⟩ => ?_
    dsimp only
    split
    · rfl
    · split
      · rfl
      · refine result_bind (trackData_result d₁ qtr) fun ⟨data, d₂⟩ => ?_
        cases data with
        | none => rfl
        | some data =>
          refine result_bind (trackQuantum_result d₂ data (p.pos off)) fun ⟨ptr, d₃⟩ => ?_
          cases ptr with
          | none => rfl
          | some ptr =>
            dsimp only
            rw [result_mark_bind, result_mark_bind, result_mark_bind]
            refine result_bind (result_lift _) fun d₄ => ?_
            split <;> rfl

end Results

/-! ### Where they touch -/

section Inside

variable {p : Params} {v : Vmalloc}

theorem element_inside (p : Params) (off : Int) : (Access.elements (p.pos off) 1).Inside p := by
  have bound := p.slot_lt off
  show 0 ≤ p.pos off ∧ p.pos off + 1 ≤ p.qset
  rw [p.pos_eq]
  generalize toU64 off % p.size / p.quantum = pos at bound
  omega

theorem bytes_inside (p : Params) (off : Int) (len : Nat) :
    (Access.bytes (p.offset off) (toU64 (p.count off len))).Inside p := by
  have bound := Nat.mod_lt (toU64 off % p.size) p.quantum_pos
  have small := p.quantum_small
  have count := Params.count_eq (p.offset_eq off) bound len
  have copied : toU64 (p.count off len) = min len (p.quantum - toU64 off % p.size % p.quantum) := by
    rw [count]
    exact toU64_small (by omega)
  simp only [Access.Inside, p.offset_eq, copied]
  omega

theorem trackSlot_inside {i : Int} (inside : (Access.elements i 1).Inside p) (d : Dev) (a : Addr) :
    All (Access.Inside p) (trackSlot d a i) :=
  All.bind ((all_mark_iff _).mpr inside) fun _ _ => all_lift _

theorem trackSetSlot_inside {i : Int} (inside : (Access.elements i 1).Inside p) (d : Dev) (a ptr : Addr) :
    All (Access.Inside p) (trackSetSlot d a i ptr) :=
  All.bind ((all_mark_iff _).mpr inside) fun _ _ => all_lift _

theorem trackTrimSlots_inside {n i : Nat} (bound : i + n ≤ p.qset) (d : Dev) (data : Addr) :
    All (Access.Inside p) (trackTrimSlots n d data i) := by
  induction n generalizing d i with
  | zero => exact all_pure d
  | succ n ih =>
    have here : (Access.elements i 1).Inside p := by
      simp only [Access.Inside]
      omega
    refine All.bind (trackSlot_inside here d data) fun ptr _ => All.bind (all_lift _) fun d₁ _ => ?_
    exact All.bind (trackSetSlot_inside here d₁ data 0) fun d₂ _ => ih (by omega) d₂

theorem trackTrimData_inside (d : Dev) (qtr data : Addr) : All (Access.Inside p) (trackTrimData p d qtr data) := by
  unfold trackTrimData
  split
  · refine All.bind (trackTrimSlots_inside (Nat.zero_add _).le d data) fun d₁ _ => ?_
    exact All.bind (all_lift _) fun d₂ _ => all_lift _
  · exact all_pure d

theorem trackTrimLoop_inside (n : Nat) (d : Dev) (qtr : Addr) :
    All (Access.Inside p) (trackTrimLoop p n d qtr) := by
  induction n generalizing d qtr with
  | zero => exact all_lift _
  | succ n ih =>
    unfold trackTrimLoop
    split
    · exact all_pure d
    · refine All.bind ?_ fun pair _ => ih pair.2 pair.1
      refine All.bind (all_lift _) fun fields _ => All.bind (trackTrimData_inside d qtr fields.2) fun d₁ _ => ?_
      exact All.bind (all_lift _) fun again _ => All.bind (all_lift _) fun d₂ _ => all_pure _

theorem trackTrim_inside (p : Params) (d : Dev) (signal : Bool) : All (Access.Inside p) (trackTrim p d signal) := by
  unfold trackTrim
  split
  · exact all_pure d
  · exact All.bind (trackTrimLoop_inside _ d.down d.data) fun _ _ => all_pure _

theorem trackRead_inside (p : Params) (v : Vmalloc) (d : Dev) (signal : Bool) (off : Int) (len fault : Nat) :
    All (Access.Inside p) (trackRead p v d signal off len fault) := by
  unfold trackRead
  split
  · exact all_pure _
  · refine All.bind (all_lift _) fun ⟨curset, d₁⟩ _ => ?_
    dsimp only
    split
    · exact all_pure _
    · refine All.bind (all_lift _) fun ⟨next, data⟩ _ => ?_
      dsimp only
      split
      · exact all_pure _
      · refine All.bind (trackSlot_inside (element_inside p off) d₁ data) fun ptr _ => ?_
        split
        · exact all_pure _
        · refine All.bind ((all_mark_iff _).mpr (bytes_inside p off len)) fun _ _ => ?_
          refine All.bind (all_lift _) fun bytes _ => ?_
          split <;> exact all_pure _

theorem trackData_inside (d : Dev) (qtr : Addr) : All (Access.Inside p) (trackData p v d qtr) := by
  refine All.bind (all_lift _) fun ⟨next, data⟩ _ => ?_
  dsimp only
  split
  · refine All.bind (all_lift _) fun d₁ _ => ?_
    split
    · exact all_pure _
    · refine All.bind ((all_mark_iff _).mpr ⟨Int.le_refl 0, by omega⟩) fun _ _ => ?_
      exact All.bind (all_lift _) fun _ _ => all_pure _
  · exact all_pure _

theorem trackQuantum_inside {pos : Int} (inside : (Access.elements pos 1).Inside p) (d : Dev) (data : Addr) :
    All (Access.Inside p) (trackQuantum p v d data pos) := by
  refine All.bind (trackSlot_inside inside d data) fun ptr _ => ?_
  split
  · refine All.bind (trackSetSlot_inside inside _ data _) fun d₁ _ => ?_
    split
    · exact all_pure _
    · exact All.bind (all_lift _) fun _ _ => all_pure _
  · exact all_pure _

/-- The write comes to its messages. -/
def Prints (p : Params) (v : Vmalloc) (d : Dev) (signal : Bool) (off : Int) : Prop :=
  signal = false ∧ ∃ qtr d₁ data d₂ ptr d₃, scullFollow v d.down (p.index off) = .ok (qtr, d₁) ∧
    isErr qtr = false ∧ ensureData p v d₁ qtr = .ok (some data, d₂) ∧
    ensureQuantum p v d₂ data (p.pos off) = .ok (some ptr, d₃)

theorem toU64_pos_lt (p : Params) (off : Int) : ¬ toU64 (p.pos off) ≥ p.qset := by
  rw [p.pos_eq, toU64_small (Nat.lt_trans (p.slot_lt off) p.qset_small)]
  exact Nat.not_le.mpr (p.slot_lt off)

theorem trackWrite_inside_iff (d : Dev) (signal : Bool) (off : Int) (user : List UInt8) (fault : Nat) :
    All (Access.Inside p) (trackWrite p v d signal off user fault) ↔
      (Prints p v d signal off → p.pos off + 1 < p.qset) := by
  have next : (Access.elements (p.pos off + 1) 1).Inside p ↔ p.pos off + 1 < p.qset := by
    have low := (element_inside p off).1
    simp only [Access.Inside]
    omega
  rw [← next]
  unfold trackWrite
  constructor
  · rintro inside ⟨rfl, qtr, d₁, data, d₂, ptr, d₃, followed, noErr, ensured, found⟩
    rw [if_neg Bool.false_ne_true] at inside
    have inside := (all_bind_iff.mp inside).2 _ ((result_lift _).trans followed)
    simp only [noErr, Bool.false_eq_true, if_false, if_neg (toU64_pos_lt p off)] at inside
    have inside := (all_bind_iff.mp inside).2 _ ((trackData_result d₁ qtr).trans ensured)
    have inside := (all_bind_iff.mp inside).2 _ ((trackQuantum_result d₂ data (p.pos off)).trans found)
    have inside := (all_bind_iff.mp inside).2 _ rfl
    exact (all_mark_iff _).mp (all_bind_iff.mp inside).1
  · intro printed
    split
    · exact all_pure _
    · rename_i proceeds
      have granted : signal = false := by simpa using proceeds
      refine All.bind (all_lift _) fun ⟨qtr, d₁⟩ followed => ?_
      rw [result_lift] at followed
      dsimp only
      split
      · exact all_pure _
      · rename_i noErr
        rw [if_neg (toU64_pos_lt p off)]
        refine All.bind (trackData_inside d₁ qtr) fun ⟨data, d₂⟩ ensured => ?_
        rw [trackData_result] at ensured
        cases data with
        | none => exact all_pure _
        | some data =>
          refine All.bind (trackQuantum_inside (element_inside p off) d₂ data) fun ⟨ptr, d₃⟩ found => ?_
          rw [trackQuantum_result] at found
          cases ptr with
          | none => exact all_pure _
          | some ptr =>
            have reached : Prints p v d signal off :=
              ⟨granted, qtr, d₁, data, d₂, ptr, d₃, followed, by simpa using noErr, ensured, found⟩
            refine All.bind ((all_mark_iff _).mpr (element_inside p off)) fun _ _ => ?_
            refine All.bind ((all_mark_iff _).mpr (printed reached)) fun _ _ => ?_
            refine All.bind ((all_mark_iff _).mpr (bytes_inside p off user.length)) fun _ _ => ?_
            refine All.bind (all_lift _) fun d₄ _ => ?_
            split <;> exact all_pure _

end Inside

/-! ### The writes that print past the array -/

theorem prints_place {p : Params} {v : Vmalloc} {d : Dev} {nodes : List (NodeRep p)} (linked : Linked d nodes)
    {off : Int} {a : Place p} (located : At p off a) :
    Prints p v d false off ↔
      ¬ Refused p v d ((List.range (a.idx + 1)).map .node ++ [.array a.idx, .quantum a.idx a.pos]) := by
  have nested : Prints p v d false off ↔
      ∃ qtr d₁, scullFollow v d.down a.idx = .ok (qtr, d₁) ∧ isErr qtr = false ∧
        ∃ data d₂, ensureData p v d₁ qtr = .ok (data, d₂) ∧ ∃ arr, data = some arr ∧
          ∃ ptr d₃, ensureQuantum p v d₂ arr a.pos = .ok (ptr, d₃) ∧ ptr ≠ none := by
    rw [Prints, located.index, located.pos]
    constructor
    · rintro ⟨_, qtr, d₁, data, d₂, ptr, d₃, followed, noErr, ensured, found⟩
      have there := Option.some_ne_none ptr
      exact ⟨qtr, d₁, followed, noErr, some data, d₂, ensured, data, rfl, some ptr, d₃, found, there⟩
    · rintro ⟨qtr, d₁, followed, noErr, _, d₂, ensured, data, rfl, ptr, d₃, found, some⟩
      obtain ⟨ptr, rfl⟩ := Option.ne_none_iff_exists'.mp some
      exact ⟨rfl, qtr, d₁, data, d₂, ptr, d₃, followed, noErr, ensured, found⟩
  rw [nested, ← refused_down]
  apply (scullFollow_asks linked.down a.idx_lt).runs_iff [.array a.idx, .quantum a.idx a.pos]
  rintro _ d₁ ⟨walked, rest, nd, linked₁, length, rfl⟩
  rw [← length, and_iff_right nd.noErr]
  apply (ensureData_asks linked₁).runs_iff [.quantum walked.length a.pos]
  rintro _ d₂ ⟨arr, rfl, linked₂⟩
  simp only [Option.some.injEq, exists_eq_left']
  apply (ensureQuantum_asks linked₂ a.pos_lt).runs_iff []
  exact fun ptr d₃ found => iff_of_true found id

/-- In a device that calls have left, a write that was granted the semaphore prints unless `vmalloc`
refuses one of the blocks that the device lacks for it. -/
theorem prints_iff {p : Params} {d : Dev} (reached : Reached p d) (v : Vmalloc) {off : Nat}
    (inRange : off < (2 ^ 31 - 1) * (p.quantum * p.qset)) :
    Prints p v d false off ↔ ¬ Refused p v d (needed p off) := by
  obtain ⟨nodes, linked⟩ := reached.linked
  rw [prints_place linked (at_placeOf inRange), needed, ← p.size_eq]
  rfl

-- a first write is given its node and its array and refused the quantum
example : Refused .loaded (upwards.failing 2) .started (needed .loaded 95) := by decide +kernel

example : ¬ Refused .loaded upwards .started (needed .loaded 95) := by decide +kernel

/-- Reads and trims stay inside the arrays and quanta. A write does exactly if its slot is not the
last one of the array, unless it ends early: by a signal, or because `vmalloc` refuses a block that it
needs and the device lacks. -/
theorem array_bounds_iff {p : Params} {d : Dev} (reached : Reached p d) (v : Vmalloc) (signal : Bool) {off : Nat}
    (inRange : off < (2 ^ 31 - 1) * (p.quantum * p.qset)) (len : Nat) (user : List UInt8) (fault : Nat) :
    All (Access.Inside p) (trackTrim p d signal) ∧
    All (Access.Inside p) (trackRead p v d signal off len fault) ∧
    (All (Access.Inside p) (trackWrite p v d signal off user fault) ↔
      signal = true ∨ Refused p v d (needed p off) ∨ off % (p.quantum * p.qset) / p.quantum + 1 < p.qset) := by
  refine ⟨trackTrim_inside p d signal, trackRead_inside p v d signal off len fault, ?_⟩
  have slot : p.pos off = (off % (p.quantum * p.qset) / p.quantum : Nat) := by
    rw [(at_placeOf inRange).pos, ← p.size_eq]
    rfl
  rw [trackWrite_inside_iff, slot]
  cases signal with
  | true => exact iff_of_true (fun printed => Bool.noConfusion printed.1) (Or.inl rfl)
  | false =>
    rw [prints_iff reached v inRange, ← Classical.or_iff_not_imp_left]
    simp only [Bool.false_eq_true, false_or]
    exact or_congr_right (by omega)

theorem array_bounds_first_slot :
    All (Access.Inside .loaded) (trackWrite .loaded upwards .started false (5 : Nat) [97] 0) := by
  have inRange : 5 < (2 ^ 31 - 1) * (Params.loaded.quantum * Params.loaded.qset) := by decide
  exact (array_bounds_iff .started upwards false inRange 1 [97] 0).2.2.mpr (Or.inr (Or.inr (by decide)))

/-- A write to the last of ten slots reads the eleventh. -/
theorem last_slot_prints_past_array :
    (scullWrite .loaded upwards .started false (95 : Nat) [97] 0).map Done.ret = .ok (.ok 1) ∧
      Access.elements 10 1 ∈ (trackWrite .loaded upwards .started false (95 : Nat) [97] 0).marks ∧
      ¬ All (Access.Inside .loaded) (trackWrite .loaded upwards .started false (95 : Nat) [97] 0) := by
  have returned : (scullWrite .loaded upwards .started false (95 : Nat) [97] 0).map Done.ret = .ok (.ok 1) := by
    decide +kernel
  have marked : Access.elements 10 1 ∈ (trackWrite .loaded upwards .started false (95 : Nat) [97] 0).marks := by
    decide +kernel
  exact ⟨returned, marked, fun inside => absurd (inside _ marked).2 (by decide)⟩

end Ldd3.Scull
