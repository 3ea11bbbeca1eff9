import Ldd3.Base.Runs
import Ldd3.Scull.Alloc

/-!
What the device of `scull0` is for: a sparse store of blocks of `scull_quantum` bytes, numbered by
offset. `Spec.step` says what a call does to the blocks and to the position of its file; every run of
the device at offsets that its `int` variables can count gives the answers of `Spec.step`.
-/

namespace Ldd3.Scull

open Base.Heap Base.Runs Base.Words

variable {p : Params} {ι : Type} [DecidableEq ι]

/-- The calls on the open files; `trim` is also made when the module is removed. -/
inductive Call (ι : Type) where
  | read (f : ι) (len : Nat)
  | write (f : ι) (user : List UInt8)
  | llseek (f : ι) (off whence : Int)
  | open (f : ι) (flags : Nat)
  | trim

structure Answer where
  ret : Except Errno Int
  delivered : List UInt8

/-! ### The device and its open files -/

structure State (ι : Type) where
  dev : Dev
  fpos : ι → Int

def State.started : State ι := ⟨.started, fun _ => 0⟩

def State.exec (p : Params) (v : Vmalloc) (s : State ι) : Call ι → Except Oops (Answer × State ι)
  | .read f len => do
    let r ← scullRead p v s.dev false (s.fpos f) len 0
    return (⟨r.ret, r.delivered⟩, ⟨r.dev, Function.update s.fpos f r.off⟩)
  | .write f user => do
    let r ← scullWrite p v s.dev false (s.fpos f) user 0
    return (⟨r.ret, r.delivered⟩, ⟨r.dev, Function.update s.fpos f r.off⟩)
  | .llseek f off whence =>
    match scullLlseek p false (s.fpos f) off whence with
    | .ok newpos => .ok (⟨.ok newpos, []⟩, { s with fpos := Function.update s.fpos f newpos })
    | .error e => .ok (⟨.error e, []⟩, s)
  | .open f flags => do
    let d ← scullOpen p s.dev false flags
    return (⟨.ok 0, []⟩, ⟨d, Function.update s.fpos f 0⟩)
  | .trim => do
    let d ← scullTrim p s.dev false
    return (⟨.ok 0, []⟩, { s with dev := d })

/-! ### The sparse store -/

abbrev Quantum (p : Params) := Fin p.quantum → UInt8

def Quantum.write (b : Quantum p) (byte : Nat) (xs : List UInt8) : Quantum p := fun i =>
  if byte ≤ i ∧ i < byte + xs.length then xs.getD (i - byte) 0 else b i

structure Spec (p : Params) (ι : Type) where
  blocks : Finmap fun _ : Nat => Quantum p
  fpos : ι → Nat

def Spec.start : Spec p ι := ⟨∅, fun _ => 0⟩

/-- The bytes that a transfer of `len` at `off` moves: it ends with the block. -/
def Params.transfer (p : Params) (off len : Nat) : Nat := min len (p.quantum - off % p.quantum)

def Spec.read (t : Spec p ι) (f : ι) (len : Nat) : Answer × Spec p ι :=
  let off := t.fpos f
  let c := p.transfer off len
  match t.blocks.lookup (off / p.quantum) with
  | none => (⟨.error .EFAULT, []⟩, t)
  | some b =>
    (⟨.ok c, ((List.ofFn b).drop (off % p.quantum)).take c⟩, { t with fpos := Function.update t.fpos f (off + c) })

def Spec.write (t : Spec p ι) (f : ι) (user : List UInt8) : Answer × Spec p ι :=
  let off := t.fpos f
  let c := p.transfer off user.length
  let b := (t.blocks.lookup (off / p.quantum)).getD fun _ => 0
  (⟨.ok c, []⟩,
    ⟨t.blocks.insert (off / p.quantum) (Quantum.write b (off % p.quantum) (user.take c)),
      Function.update t.fpos f (off + c)⟩)

def Spec.step (t : Spec p ι) : Call ι → Answer × Spec p ι
  | .read f len => t.read f len
  | .write f user => t.write f user
  | .llseek f off whence =>
    match scullLlseek p false (t.fpos f) off whence with
    | .ok newpos => (⟨.ok newpos, []⟩, { t with fpos := Function.update t.fpos f newpos.toNat })
    | .error e => (⟨.error e, []⟩, t)
  | .open f flags =>
    (⟨.ok 0, []⟩, ⟨if flags &&& 3 = 1 then ∅ else t.blocks, Function.update t.fpos f 0⟩)
  | .trim => (⟨.ok 0, []⟩, { t with blocks := ∅ })

/-- A read or a write is made where the index of the list node is below the largest `int`. -/
def Spec.InRange (t : Spec p ι) : Call ι → Prop
  | .read f _ | .write f _ => t.fpos f < (2 ^ 31 - 1) * (p.quantum * p.qset)
  | _ => True

instance (t : Spec p ι) : (call : Call ι) → Decidable (t.InRange call)
  | .read f _ | .write f _ => inferInstanceAs (Decidable (t.fpos f < (2 ^ 31 - 1) * (p.quantum * p.qset)))
  | .llseek .. | .open .. | .trim => .isTrue trivial

/-! ### Blocks and places -/

def Place.block (a : Place p) : Nat := a.idx * p.qset + a.pos

theorem Place.block_iff (a : Place p) (k : Nat) : k / p.qset = a.idx ∧ k % p.qset = a.pos ↔ k = a.block := by
  constructor
  · rintro ⟨node, slot⟩
    rw [Place.block, ← node, ← slot, Nat.div_add_mod']
  · rintro rfl
    have inside := a.pos_lt
    refine ⟨?_, ?_⟩
    · rw [Place.block, Nat.mul_comm, Nat.mul_add_div p.qset_pos, Nat.div_eq_of_lt inside, Nat.add_zero]
    · rw [Place.block, Nat.mul_add_mod_self_right, Nat.mod_eq_of_lt inside]

def placeOf (p : Params) (off : Nat) (inRange : off < (2 ^ 31 - 1) * (p.quantum * p.qset)) : Place p where
  idx := off / p.size
  pos := off % p.size / p.quantum
  byte := off % p.size % p.quantum
  idx_lt := by
    rw [p.size_eq]
    exact Nat.div_lt_of_lt_mul (by rwa [Nat.mul_comm])
  pos_lt := by
    apply Nat.div_lt_of_lt_mul
    rw [← p.size_eq]
    exact Nat.mod_lt _ p.size_pos
  byte_lt := Nat.mod_lt _ p.quantum_pos

theorem placeOf_block {off : Nat} (inRange : off < (2 ^ 31 - 1) * (p.quantum * p.qset)) :
    (placeOf p off inRange).block = off / p.quantum := by
  simp only [Place.block, placeOf]
  rw [p.size_eq, ← Nat.div_div_eq_div_mul, Nat.mod_mul_right_div_self, Nat.div_add_mod']

theorem placeOf_byte {off : Nat} (inRange : off < (2 ^ 31 - 1) * (p.quantum * p.qset)) :
    (placeOf p off inRange).byte = off % p.quantum := by
  simp only [placeOf]
  rw [p.size_eq, Nat.mod_mul_right_mod]

theorem inRange_lt {off : Nat} (inRange : off < (2 ^ 31 - 1) * (p.quantum * p.qset)) : off < 2 ^ 62 := by
  have below : (2 ^ 31 - 1) * (p.quantum * p.qset) ≤ (2 ^ 31 - 1) * 2 ^ 31 :=
    Nat.mul_le_mul_left _ (Nat.le_of_lt p.small)
  omega

theorem at_placeOf {off : Nat} (inRange : off < (2 ^ 31 - 1) * (p.quantum * p.qset)) :
    At p off (placeOf p off inRange) := by
  have small := inRange_lt inRange
  have same : toU64 (off : Int) = off := by
    rw [toU64_natCast, Nat.mod_eq_of_lt (by omega)]
  refine ⟨?_, ?_, ?_⟩
  · rw [Params.index, same]
    exact toInt32_small (Nat.lt_of_lt_of_le (placeOf p off inRange).idx_lt (by decide))
  · rw [p.pos_eq, same]
    rfl
  · rw [p.offset_eq, same]
    rfl

/-! ### The device represents the store -/

def Represents (p : Params) (d : Dev) (blocks : Finmap fun _ : Nat => Quantum p) : Prop :=
  ∃ nodes : List (NodeRep p), Linked d nodes ∧
    ∀ k, contents nodes (k / p.qset) (k % p.qset) = (blocks.lookup k).map List.ofFn

structure Related (s : State ι) (t : Spec p ι) : Prop where
  blocks : Represents p s.dev t.blocks
  sema : s.dev.sema = 1
  fpos : s.fpos = fun f => (t.fpos f : Int)

theorem represents_empty {d : Dev} (linked : Linked (p := p) d []) : Represents p d ∅ := by
  refine ⟨[], linked, ?_⟩
  intro k
  rfl

theorem overwrite_ofFn (b : Quantum p) {byte : Nat} {xs : List UInt8} (fits : byte + xs.length ≤ p.quantum) :
    overwrite (List.ofFn b) byte xs = List.ofFn (b.write byte xs) := by
  have inside : byte + xs.length ≤ (List.ofFn b).length := by rwa [List.length_ofFn]
  apply List.ext_getElem?
  intro j
  rw [overwrite_get inside, List.getElem?_ofFn, List.getElem?_ofFn]
  by_cases written : byte ≤ j ∧ j < byte + xs.length
  · rw [if_pos written, dif_pos (by omega), Quantum.write, if_pos written, List.getD_eq_getElem?_getD,
      List.getElem?_eq_getElem (by omega), Option.getD_some]
  · rw [if_neg written]
    split
    · rw [Quantum.write, if_neg written]
    · rfl

theorem stored_eq {blocks : Finmap fun _ : Nat => Quantum p} {nodes : List (NodeRep p)}
    (same : ∀ k, contents nodes (k / p.qset) (k % p.qset) = (blocks.lookup k).map List.ofFn) (a : Place p) :
    contents nodes a.idx a.pos = (blocks.lookup a.block).map List.ofFn := by
  obtain ⟨node, slot⟩ := (a.block_iff a.block).mpr rfl
  rw [← same, node, slot]

theorem ofFn_getD (b : Option (Quantum p)) :
    (b.map List.ofFn).getD (List.replicate p.quantum 0) = List.ofFn (b.getD fun _ => 0) := by
  cases b with
  | none => exact (List.ofFn_const _ _).symm
  | some b => rfl

theorem room_placeOf {off : Nat} (inRange : off < (2 ^ 31 - 1) * (p.quantum * p.qset)) (len : Nat) :
    min len (placeOf p off inRange).room = p.transfer off len := by
  rw [Place.room, placeOf_byte, Params.transfer]

theorem advance {off : Nat} (inRange : off < (2 ^ 31 - 1) * (p.quantum * p.qset)) (len : Nat) :
    toInt64 (off + (p.transfer off len : Nat)) = (off + p.transfer off len : Nat) := by
  have low := inRange_lt inRange
  have small := p.quantum_small
  have short : p.transfer off len ≤ p.quantum := Nat.le_trans (Nat.min_le_right _ _) (Nat.sub_le _ _)
  rw [toInt64_of_range (by omega) (by omega), Int.natCast_add]

theorem update_cast (fpos : ι → Nat) (f : ι) (n : Nat) :
    Function.update (fun g => (fpos g : Int)) f n = fun g => (Function.update fpos f n g : Int) := by
  funext g
  by_cases same : g = f
  · subst g
    rw [Function.update_self, Function.update_self]
  · rw [Function.update_of_ne same, Function.update_of_ne same]

theorem llseek_nonneg {fpos off whence newpos : Int} (sought : scullLlseek p false fpos off whence = .ok newpos) :
    0 ≤ newpos := by
  unfold scullLlseek at sought
  cases target : seekTarget p fpos off whence with
  | none =>
    rw [target] at sought
    cases sought
  | some there =>
    rw [target] at sought
    by_cases negative : there < 0
    · simp only [if_pos negative] at sought
      cases sought
    · simp only [if_neg negative] at sought
      cases sought
      exact Int.not_lt.mp negative

theorem trim_refines {d : Dev} {blocks : Finmap fun _ : Nat => Quantum p} (represents : Represents p d blocks) :
    ∃ d', scullTrim p d false = .ok d' ∧ Represents p d' ∅ ∧ d'.sema = d.sema := by
  obtain ⟨nodes, linked, _⟩ := represents
  obtain ⟨d', ran, linked', sema⟩ := scullTrim_spec linked
  exact ⟨d', ran, represents_empty linked', sema⟩

theorem open_refines {s : State ι} {t : Spec p ι} (v : Vmalloc) (related : Related s t) (f : ι) (flags : Nat) :
    ∃ s', s.exec p v (.open f flags) = .ok ((t.step (.open f flags)).1, s') ∧
      Related s' (t.step (.open f flags)).2 := by
  by_cases writeOnly : flags &&& 3 = 1
  · obtain ⟨d', ran, empty, sema⟩ := trim_refines related.blocks
    refine ⟨⟨d', fun g => (Function.update t.fpos f 0 g : Nat)⟩, ?_, ?_, sema.trans related.sema, rfl⟩
    · simp only [State.exec, scullOpen, if_pos writeOnly, ran, bind, Except.bind, related.fpos]
      rw [← update_cast]
      rfl
    · simp only [Spec.step, if_pos writeOnly]
      exact empty
  · refine ⟨⟨s.dev, fun g => (Function.update t.fpos f 0 g : Nat)⟩, ?_, ?_, related.sema, rfl⟩
    · simp only [State.exec, scullOpen, if_neg writeOnly, bind, Except.bind, related.fpos]
      rw [← update_cast]
      rfl
    · simp only [Spec.step, if_neg writeOnly]
      exact related.blocks

theorem llseek_refines {s : State ι} {t : Spec p ι} (v : Vmalloc) (related : Related s t) (f : ι) (off whence : Int) :
    ∃ s', s.exec p v (.llseek f off whence) = .ok ((t.step (.llseek f off whence)).1, s') ∧
      Related s' (t.step (.llseek f off whence)).2 := by
  rw [State.exec, related.fpos, Spec.step]
  cases sought : scullLlseek p false (t.fpos f) off whence with
  | error e => exact ⟨s, rfl, related⟩
  | ok newpos =>
    have low := llseek_nonneg sought
    refine ⟨_, rfl, related.blocks, related.sema, ?_⟩
    rw [← Int.toNat_of_nonneg low]
    exact update_cast _ _ _

section Succeeding

variable {v : Vmalloc} (succeeds : ∀ n h, v.answer n h ≠ 0)

/-- What a read at `off` returns when `stored` is its block, and the files after it. -/
def State.readFrom (p : Params) (s : State ι) (f : ι) (off len : Nat) (d' : Dev) :
    Option (List UInt8) → Answer × State ι
  | none => (⟨.error .EFAULT, []⟩, { s with dev := d' })
  | some bytes =>
    (⟨.ok (p.transfer off len : Nat), (bytes.drop (off % p.quantum)).take (p.transfer off len)⟩,
      ⟨d', Function.update s.fpos f (off + p.transfer off len : Nat)⟩)

include succeeds

theorem exec_read {s : State ι} {nodes : List (NodeRep p)} (linked : Linked s.dev nodes) {f : ι} {off : Nat}
    (position : s.fpos f = off) (inRange : off < (2 ^ 31 - 1) * (p.quantum * p.qset)) (len : Nat) :
    ∃ (nodes' : List (NodeRep p)) (d' : Dev), Linked d' nodes' ∧ d'.sema = s.dev.sema ∧
      contents nodes' = contents nodes ∧
      s.exec p v (.read f len) =
        .ok (s.readFrom p f off len d' (contents nodes (off / p.quantum / p.qset) (off / p.quantum % p.qset))) := by
  obtain ⟨nodes', d', linked', sema', kept, ran⟩ := scullRead_spec succeeds linked (at_placeOf inRange) len
  refine ⟨nodes', d', linked', sema', kept, ?_⟩
  obtain ⟨node, slot⟩ := ((placeOf p off inRange).block_iff (off / p.quantum)).mpr (placeOf_block inRange).symm
  rw [State.exec, position, ran, node, slot]
  cases contents nodes (placeOf p off inRange).idx (placeOf p off inRange).pos with
  | none =>
    simp only [readAnswer, State.readFrom, bind, Except.bind, ← position]
    rw [Function.update_eq_self]
    rfl
  | some bytes =>
    simp only [readAnswer, State.readFrom, bind, Except.bind, room_placeOf inRange, placeOf_byte, advance inRange]
    rfl

theorem exec_write {s : State ι} {nodes : List (NodeRep p)} (linked : Linked s.dev nodes) {f : ι} {off : Nat}
    (position : s.fpos f = off) (inRange : off < (2 ^ 31 - 1) * (p.quantum * p.qset)) (user : List UInt8) :
    ∃ (nodes' : List (NodeRep p)) (d' : Dev), Linked d' nodes' ∧ d'.sema = s.dev.sema ∧
      contents nodes' =
        written (placeOf p off inRange) (user.take (p.transfer off user.length)) (contents nodes) ∧
      s.exec p v (.write f user) = .ok (⟨.ok (p.transfer off user.length : Nat), []⟩,
        ⟨d', Function.update s.fpos f (off + p.transfer off user.length : Nat)⟩) := by
  obtain ⟨nodes', d', linked', sema', changed, ran⟩ := scullWrite_spec succeeds linked (at_placeOf inRange) user 0
  rw [Place.copied_zero, room_placeOf inRange] at changed
  refine ⟨nodes', d', linked', sema', changed, ?_⟩
  rw [State.exec, position, ran]
  simp only [writeAnswer, Nat.zero_min, ne_eq, not_true_eq_false, if_false, room_placeOf inRange, bind, Except.bind,
    advance inRange]
  rfl

theorem read_refines {s : State ι} {t : Spec p ι} (related : Related s t) (f : ι) (len : Nat)
    (inRange : t.fpos f < (2 ^ 31 - 1) * (p.quantum * p.qset)) :
    ∃ s', s.exec p v (.read f len) = .ok ((t.read f len).1, s') ∧ Related s' (t.read f len).2 := by
  obtain ⟨⟨nodes, linked, same⟩, sema, positions⟩ := related
  obtain ⟨nodes', d', linked', sema', kept, ran⟩ := exec_read succeeds linked (congrFun positions f) inRange len
  have represents : Represents p d' t.blocks := ⟨nodes', linked', by rwa [kept]⟩
  rw [ran, same, Spec.read]
  cases found : t.blocks.lookup (t.fpos f / p.quantum) with
  | none => exact ⟨_, rfl, represents, sema'.trans sema, positions⟩
  | some b =>
    refine ⟨_, rfl, represents, sema'.trans sema, ?_⟩
    simp only [positions, update_cast]

theorem write_refines {s : State ι} {t : Spec p ι} (related : Related s t) (f : ι) (user : List UInt8)
    (inRange : t.fpos f < (2 ^ 31 - 1) * (p.quantum * p.qset)) :
    ∃ s', s.exec p v (.write f user) = .ok ((t.write f user).1, s') ∧ Related s' (t.write f user).2 := by
  obtain ⟨⟨nodes, linked, same⟩, sema, positions⟩ := related
  obtain ⟨nodes', d', linked', sema', changed, ran⟩ := exec_write succeeds linked (congrFun positions f) inRange user
  have fits : t.fpos f % p.quantum + (user.take (p.transfer (t.fpos f) user.length)).length ≤ p.quantum := by
    have inside := Nat.mod_lt (t.fpos f) p.quantum_pos
    rw [List.length_take, Params.transfer]
    omega
  have represents : Represents p d' (t.write f user).2.blocks := by
    refine ⟨nodes', linked', ?_⟩
    intro k
    rw [changed, written, stored_eq same, placeOf_block, placeOf_byte, ofFn_getD, overwrite_ofFn _ fits, Spec.write]
    simp only [(placeOf p (t.fpos f) inRange).block_iff, placeOf_block]
    by_cases here : k = t.fpos f / p.quantum
    · rw [if_pos here, here, Finmap.lookup_insert]
      rfl
    · rw [if_neg here, Finmap.lookup_insert_of_ne _ here, same]
  refine ⟨_, ran, represents, sema'.trans sema, ?_⟩
  simp only [positions, update_cast, Spec.write]

theorem exec_simulates : Simulates (State.exec p v) (Spec.step (p := p) (ι := ι)) Spec.InRange Related := by
  intro s t call related inRange
  cases call with
  | read f len => exact read_refines succeeds related f len inRange
  | write f user => exact write_refines succeeds related f user inRange
  | llseek f off whence => exact llseek_refines v related f off whence
  | «open» f flags => exact open_refines v related f flags
  | trim =>
    obtain ⟨d', ran, empty, sema⟩ := trim_refines related.blocks
    refine ⟨{ s with dev := d' }, ?_, empty, sema.trans related.sema, related.fpos⟩
    rw [State.exec, ran]
    rfl

end Succeeding

theorem store_refines (p : Params) (v : Vmalloc) (succeeds : ∀ n h, v.answer n h ≠ 0) (calls : List (Call ι))
    (inRange : Along Spec.step Spec.InRange (Spec.start : Spec p ι) calls) :
    ∃ s', run (State.exec p v) State.started calls = .ok ((answer Spec.step (Spec.start : Spec p ι) calls).1, s') ∧
      Related s' (answer Spec.step (Spec.start : Spec p ι) calls).2 := by
  apply (exec_simulates succeeds).run _ inRange
  exact ⟨represents_empty linked_started, rfl, rfl⟩

def twoFiles : List (Call Bool) :=
  [.write false [1, 2, 3], .read true 2, .llseek false (-1) 2, .write false [7, 8], .read true 20, .open true 1,
    .read true 1]

theorem store_refines_two_files :
    ∃ s', run (State.exec .loaded upwards) State.started twoFiles =
        .ok ((answer Spec.step (Spec.start : Spec .loaded Bool) twoFiles).1, s') ∧
      Related s' (answer Spec.step (Spec.start : Spec .loaded Bool) twoFiles).2 := by
  apply store_refines .loaded upwards upwards_succeeds twoFiles
  decide

end Ldd3.Scull
