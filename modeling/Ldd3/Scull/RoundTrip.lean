import Ldd3.Base.Blocks
import Ldd3.Scull.Ownership

/-!
A client that writes until all is accepted and reads until all is there. Each call moves at most to
the end of one quantum, so the client needs as many calls as its range has quanta, and gets back
what it wrote, whatever the device held before. Bytes are named by their offset: byte `k` of the
device is in slot `k / quantum % qset` of node `k / quantum / qset`.
-/

namespace Ldd3.Scull

open Base.Blocks Base.Heap Base.Runs

variable {p : Params} {ι : Type} [DecidableEq ι]

/-! ### The bytes of the device -/

def Dev.byteAt (p : Params) (d : Dev) (k : Nat) : Option UInt8 :=
  (d.route (.quantum (k / p.quantum / p.qset) (k / p.quantum % p.qset))).bind fun a =>
    match d.heap.lookup a with
    | some (.quantum bytes) => bytes[k % p.quantum]?
    | _ => none

def flat (p : Params) (stored : Nat → Nat → Option (List UInt8)) (k : Nat) : Option UInt8 :=
  (stored (k / p.quantum / p.qset) (k / p.quantum % p.qset)).bind (·[k % p.quantum]?)

theorem byteAt_eq {d : Dev} {nodes : List (NodeRep p)} (linked : Linked d nodes) (k : Nat) :
    d.byteAt p k = flat p (contents nodes) k := by
  rw [Dev.byteAt, flat, route_quantum linked, contents]
  generalize k / p.quantum / p.qset = i
  generalize k / p.quantum % p.qset = j
  cases found : nodes[i]? with
  | none => rfl
  | some nd =>
    simp only [Option.bind_some, NodeRep.quantumAt]
    cases array : nd.array with
    | none => rfl
    | some arr =>
      simp only [Option.bind_some]
      cases slot : arr.slots[j]? with
      | none => rfl
      | some q =>
        cases q with
        | none => rfl
        | some q =>
          have stored := lookup_quantum linked found array (List.mem_of_getElem? slot)
          simp only [Option.join_some, Option.map_some, Option.bind_some, stored, slotBytes]

section Written

variable {off : Nat} {inRange : off < (2 ^ 31 - 1) * (p.quantum * p.qset)} {xs : List UInt8}
  {old : Nat → Nat → Option (List UInt8)}

theorem flat_written_block (xs : List UInt8) (old : Nat → Nat → Option (List UInt8)) {k : Nat}
    (same : k / p.quantum = off / p.quantum) :
    flat p (written (placeOf p off inRange) xs old) k =
      (overwrite ((old (k / p.quantum / p.qset) (k / p.quantum % p.qset)).getD (List.replicate p.quantum 0))
        (off % p.quantum) xs)[k % p.quantum]? := by
  have here := ((placeOf p off inRange).block_iff (k / p.quantum)).mpr (same.trans (placeOf_block inRange).symm)
  rw [flat, written, if_pos here, here.1, here.2, placeOf_byte]
  rfl

theorem flat_written_other (xs : List UInt8) (old : Nat → Nat → Option (List UInt8)) {k : Nat}
    (differs : k / p.quantum ≠ off / p.quantum) :
    flat p (written (placeOf p off inRange) xs old) k = flat p old k := by
  have elsewhere := mt ((placeOf p off inRange).block_iff (k / p.quantum)).mp
    fun same => differs (same.trans (placeOf_block inRange))
  rw [flat, written, if_neg elsewhere]
  rfl

/-- The blocks are whole, so a transfer that ends with its block fits into it. -/
theorem fits_block (whole : ∀ i j bytes, old i j = some bytes → bytes.length = p.quantum) (i j : Nat)
    (piece : off % p.quantum + xs.length ≤ p.quantum) :
    off % p.quantum + xs.length ≤ ((old i j).getD (List.replicate p.quantum 0)).length := by
  cases stored : old i j with
  | none => simpa using piece
  | some bytes => simpa [whole i j bytes stored] using piece

theorem flat_written_puts (whole : ∀ i j bytes, old i j = some bytes → bytes.length = p.quantum)
    (fits : off % p.quantum + xs.length ≤ p.quantum) :
    Puts (flat p old) (flat p (written (placeOf p off inRange) xs old)) off xs := by
  constructor
  · intro i inside
    have short : i < piece p.quantum off xs.length := by
      unfold piece
      omega
    have slot := mod_piece p.quantum_pos short
    rw [flat_written_block xs old (div_piece p.quantum_pos short), overwrite_get (fits_block whole _ _ fits), slot,
      if_pos (by omega), Nat.add_sub_cancel_left, List.getElem?_eq_getElem inside]
  · intro k b outside stored
    by_cases same : k / p.quantum = off / p.quantum
    · have untouched : ¬ (off % p.quantum ≤ k % p.quantum ∧ k % p.quantum < off % p.quantum + xs.length) := by
        have split := Nat.div_add_mod off p.quantum
        have splitK := Nat.div_add_mod k p.quantum
        rw [same] at splitK
        omega
      rw [flat_written_block xs old same, overwrite_get (fits_block whole _ _ fits), if_neg untouched]
      obtain ⟨bytes, found, byte⟩ := Option.bind_eq_some_iff.mp stored
      rw [found]
      exact byte
    · rw [flat_written_other xs old same, stored]

end Written

/-! ### The client -/

/-- Writes the rest until all is accepted, in at most `n` calls; `none` is a client that gave up. -/
def writeAll (p : Params) (v : Vmalloc) (f : ι) : Nat → State ι → List UInt8 → Except Oops (Option (Nat × State ι))
  | _, s, [] => .ok (some (0, s))
  | 0, _, _ :: _ => .ok none
  | n + 1, s, byte :: rest => do
    let (answer, s) ← s.exec p v (.write f (byte :: rest))
    match answer.ret with
    | .error _ => return none
    | .ok count =>
      if count ≤ 0 then return none
      let done ← writeAll p v f n s ((byte :: rest).drop count.toNat)
      return done.map fun (calls, s) => (calls + 1, s)

/-- Reads the remaining length until it is zero, in at most `n` calls. -/
def readAll (p : Params) (v : Vmalloc) (f : ι) :
    Nat → State ι → Nat → Except Oops (Option (Nat × List UInt8 × State ι))
  | _, s, 0 => .ok (some (0, [], s))
  | 0, _, _ + 1 => .ok none
  | n + 1, s, len + 1 => do
    let (answer, s) ← s.exec p v (.read f (len + 1))
    match answer.ret with
    | .error _ => return none
    | .ok count =>
      if count ≤ 0 then return none
      let done ← readAll p v f n s (len + 1 - count.toNat)
      return done.map fun (calls, got, s) => (calls + 1, answer.delivered ++ got, s)

theorem exec_seek (p : Params) (v : Vmalloc) (s : State ι) (f : ι) (o : Nat) :
    s.exec p v (.llseek f o 0) = .ok (⟨.ok o, []⟩, { s with fpos := Function.update s.fpos f o }) := by
  have sought : scullLlseek p false (s.fpos f) o 0 = .ok (o : Int) := by
    simp [scullLlseek, seekTarget, Int.not_lt.mpr (Int.natCast_nonneg o)]
  rw [State.exec, sought]

theorem writeAll_nil (p : Params) (v : Vmalloc) (f : ι) (n : Nat) (s : State ι) :
    writeAll p v f n s [] = .ok (some (0, s)) := by
  cases n <;> rfl

theorem writeAll_step {v : Vmalloc} {f : ι} {s s₁ : State ι} {bytes : List UInt8} {c : Nat} (positive : 0 < c)
    (nonempty : bytes ≠ []) (ran : s.exec p v (.write f bytes) = .ok (⟨.ok c, []⟩, s₁)) (n : Nat) :
    writeAll p v f (n + 1) s bytes =
      (writeAll p v f n s₁ (bytes.drop c)).map (Option.map fun (calls, s) => (calls + 1, s)) := by
  cases bytes with
  | nil => exact absurd rfl nonempty
  | cons byte rest =>
    rw [writeAll, ran]
    have proceeds : ¬ (c : Int) ≤ 0 := by omega
    simp only [bind, Except.bind, if_neg proceeds, Int.toNat_natCast]
    cases writeAll p v f n s₁ (List.drop c (byte :: rest)) <;> rfl

theorem readAll_zero (p : Params) (v : Vmalloc) (f : ι) (n : Nat) (s : State ι) :
    readAll p v f n s 0 = .ok (some (0, [], s)) := by
  cases n <;> rfl

theorem readAll_step {v : Vmalloc} {f : ι} {s s₁ : State ι} {len c : Nat} {got : List UInt8} (positive : 0 < c)
    (asked : 0 < len) (ran : s.exec p v (.read f len) = .ok (⟨.ok c, got⟩, s₁)) (n : Nat) :
    readAll p v f (n + 1) s len =
      (readAll p v f n s₁ (len - c)).map (Option.map fun (calls, rest, s) => (calls + 1, got ++ rest, s)) := by
  cases len with
  | zero => exact absurd asked (Nat.lt_irrefl 0)
  | succ len =>
    rw [readAll, ran]
    have proceeds : ¬ (c : Int) ≤ 0 := by omega
    simp only [bind, Except.bind, if_neg proceeds, Int.toNat_natCast]
    cases readAll p v f n s₁ (len + 1 - c) <;> rfl

/-- Bytes that the device holds in a row are read from one block up to its end. -/
theorem flat_block {nodes : List (NodeRep p)} {off : Nat} {bytes : List UInt8}
    (stored : ∀ i (inside : i < bytes.length), flat p (contents nodes) (off + i) = some bytes[i])
    (positive : 0 < bytes.length) :
    ∃ block, contents nodes (off / p.quantum / p.qset) (off / p.quantum % p.qset) = some block ∧
      (block.drop (off % p.quantum)).take (piece p.quantum off bytes.length) =
        bytes.take (piece p.quantum off bytes.length) := by
  have short := piece_le p.quantum off bytes.length
  obtain ⟨block, found, _⟩ := Option.bind_eq_some_iff.mp (stored 0 positive)
  refine ⟨block, found, ?_⟩
  apply List.ext_getElem?
  intro i
  rw [List.getElem?_take, List.getElem?_take]
  by_cases inside : i < piece p.quantum off bytes.length
  · have byte := stored i (by omega)
    rw [flat, div_piece p.quantum_pos inside, mod_piece p.quantum_pos inside] at byte
    rw [Nat.add_zero] at found
    rw [found, Option.bind_some] at byte
    rw [if_pos inside, if_pos inside, List.getElem?_drop, byte, List.getElem?_eq_getElem]
  · rw [if_neg inside, if_neg inside]

section Loops

variable {v : Vmalloc} (succeeds : ∀ n h, v.answer n h ≠ 0) {f : ι}

include succeeds

theorem writeAll_spec {n : Nat} {s : State ι} {nodes : List (NodeRep p)} (linked : Linked s.dev nodes) {off : Nat}
    (position : s.fpos f = off) {bytes : List UInt8}
    (inRange : off + bytes.length ≤ (2 ^ 31 - 1) * (p.quantum * p.qset))
    (enough : touched p.quantum off bytes.length ≤ n) :
    ∃ (s' : State ι) (nodes' : List (NodeRep p)),
      writeAll p v f n s bytes = .ok (some (touched p.quantum off bytes.length, s')) ∧ Linked s'.dev nodes' ∧
      s'.fpos f = (off + bytes.length : Nat) ∧ Puts (flat p (contents nodes)) (flat p (contents nodes')) off bytes := by
  induction n generalizing s nodes off bytes with
  | zero =>
    have empty : bytes.length = 0 := eq_zero_of_touched p.quantum_pos (Nat.le_zero.mp enough)
    cases List.length_eq_zero_iff.mp empty
    exact ⟨s, nodes, by simp [writeAll_nil], linked, position, puts_nil _ _⟩
  | succ n ih =>
    by_cases empty : bytes = []
    · subst empty
      exact ⟨s, nodes, by simp [writeAll_nil], linked, position, puts_nil _ _⟩
    · have positive : 0 < bytes.length := List.length_pos_iff.mpr empty
      have moved := piece_pos p.quantum_pos off positive
      have short := piece_le p.quantum off bytes.length
      have fits := mod_add_piece_le p.quantum_pos off bytes.length
      have step := touched_step p.quantum_pos off positive
      obtain ⟨nodes₁, d₁, linked₁, _, changed, ran⟩ := exec_write succeeds linked position (by omega) bytes
      rw [show p.transfer off bytes.length = piece p.quantum off bytes.length from rfl] at changed ran
      generalize piece p.quantum off bytes.length = c at *
      have taken : (bytes.take c).length = c := List.length_take_of_le short
      have dropped : (bytes.drop c).length = bytes.length - c := List.length_drop
      have first : Puts (flat p (contents nodes)) (flat p (contents nodes₁)) off (bytes.take c) := by
        rw [changed]
        exact flat_written_puts (fun _ _ _ => contents_length) (by rw [taken]; exact fits)
      -- the rest is written from where the first call stopped
      have there : (⟨d₁, Function.update s.fpos f (off + c : Nat)⟩ : State ι).fpos f = (off + c : Nat) :=
        Function.update_self ..
      obtain ⟨s', nodes', later, linked', position', second⟩ :=
        ih linked₁ there (by rw [dropped]; omega) (by rw [dropped]; omega)
      refine ⟨s', nodes', ?_, linked', by rw [position', dropped]; omega, ?_⟩
      · rw [writeAll_step moved empty ran, later, step, dropped]
        rfl
      · rw [← taken] at second
        have both := first.append second
        rwa [taken, List.take_append_drop] at both

theorem readAll_spec {n : Nat} {s : State ι} {nodes : List (NodeRep p)} (linked : Linked s.dev nodes) {off : Nat}
    (position : s.fpos f = off) {bytes : List UInt8}
    (inRange : off + bytes.length ≤ (2 ^ 31 - 1) * (p.quantum * p.qset))
    (enough : touched p.quantum off bytes.length ≤ n)
    (stored : ∀ i (inside : i < bytes.length), flat p (contents nodes) (off + i) = some bytes[i]) :
    ∃ s' : State ι, readAll p v f n s bytes.length = .ok (some (touched p.quantum off bytes.length, bytes, s')) := by
  induction n generalizing s nodes off bytes with
  | zero =>
    have empty : bytes.length = 0 := eq_zero_of_touched p.quantum_pos (Nat.le_zero.mp enough)
    cases List.length_eq_zero_iff.mp empty
    exact ⟨s, by simp [readAll_zero]⟩
  | succ n ih =>
    by_cases empty : bytes = []
    · subst empty
      exact ⟨s, by simp [readAll_zero]⟩
    · have positive : 0 < bytes.length := List.length_pos_iff.mpr empty
      have moved := piece_pos p.quantum_pos off positive
      have short := piece_le p.quantum off bytes.length
      have step := touched_step p.quantum_pos off positive
      obtain ⟨nodes₁, d₁, linked₁, _, kept, ran⟩ := exec_read succeeds linked position (by omega) bytes.length
      obtain ⟨block, found, delivered⟩ := flat_block stored positive
      rw [found, State.readFrom, show p.transfer off bytes.length = piece p.quantum off bytes.length from rfl,
        delivered] at ran
      generalize piece p.quantum off bytes.length = c at *
      have dropped : (bytes.drop c).length = bytes.length - c := List.length_drop
      have there : (⟨d₁, Function.update s.fpos f (off + c : Nat)⟩ : State ι).fpos f = (off + c : Nat) :=
        Function.update_self ..
      have rest : ∀ i (inside : i < (bytes.drop c).length),
          flat p (contents nodes₁) (off + c + i) = some (bytes.drop c)[i] := by
        intro i inside
        rw [kept, Nat.add_assoc, stored (c + i) (by omega), List.getElem_drop]
      obtain ⟨s', later⟩ := ih linked₁ there (by rw [dropped]; omega) (by rw [dropped]; omega) rest
      rw [dropped] at later
      refine ⟨s', ?_⟩
      rw [readAll_step moved positive ran, later, step]
      simp only [Except.map, Option.map_some, List.take_append_drop]

end Loops

/-- Writing until all is accepted takes one call for each quantum of the range, moves the file past it
and changes no other byte; reading it back takes as many calls and returns the same bytes. -/
theorem round_trip {s : State ι} (reached : Reached p s.dev) {v : Vmalloc} (succeeds : ∀ n h, v.answer n h ≠ 0)
    (f : ι) (o : Nat) (bytes : List UInt8) (inRange : o + bytes.length ≤ (2 ^ 31 - 1) * (p.quantum * p.qset))
    {n : Nat} (enough : touched p.quantum o bytes.length ≤ n) :
    ∃ s₁ s₂ s₃ s₄ : State ι,
      s.exec p v (.llseek f o 0) = .ok (⟨.ok o, []⟩, s₁) ∧
      writeAll p v f n s₁ bytes = .ok (some (touched p.quantum o bytes.length, s₂)) ∧
      s₂.fpos f = (o + bytes.length : Nat) ∧
      (∀ k b, k < o ∨ o + bytes.length ≤ k → s.dev.byteAt p k = some b → s₂.dev.byteAt p k = some b) ∧
      s₂.exec p v (.llseek f o 0) = .ok (⟨.ok o, []⟩, s₃) ∧
      readAll p v f n s₃ bytes.length = .ok (some (touched p.quantum o bytes.length, bytes, s₄)) := by
  obtain ⟨nodes, linked⟩ := reached.linked
  obtain ⟨s₂, nodes₂, wrote, linked₂, position, puts⟩ :=
    writeAll_spec succeeds (s := { s with fpos := Function.update s.fpos f o }) linked (Function.update_self ..) inRange
      enough
  obtain ⟨s₄, got⟩ :=
    readAll_spec succeeds (s := { s₂ with fpos := Function.update s₂.fpos f o }) linked₂ (Function.update_self ..)
      inRange enough puts.inside
  refine ⟨_, s₂, _, s₄, exec_seek p v s f o, wrote, position, ?_, exec_seek p v s₂ f o, got⟩
  intro k b outside found
  rw [byteAt_eq linked] at found
  rw [byteAt_eq linked₂]
  exact puts.outside k b outside found

/-- Twelve bytes from offset 95 on: five in the last quantum of the first node, seven in the first of
the second. -/
theorem round_trip_two_nodes :
    ∃ s₁ s₂ s₃ s₄ : State Unit,
      State.started.exec .loaded upwards (.llseek () 95 0) = .ok (⟨.ok 95, []⟩, s₁) ∧
      writeAll .loaded upwards () 2 s₁ (List.replicate 12 97) = .ok (some (2, s₂)) ∧ s₂.fpos () = 107 ∧
      s₂.exec .loaded upwards (.llseek () 95 0) = .ok (⟨.ok 95, []⟩, s₃) ∧
      readAll .loaded upwards () 2 s₃ 12 = .ok (some (2, List.replicate 12 97, s₄)) := by
  have inRange : 95 + (List.replicate 12 (97 : UInt8)).length ≤
      (2 ^ 31 - 1) * (Params.loaded.quantum * Params.loaded.qset) := by decide
  have two : touched Params.loaded.quantum 95 (List.replicate 12 (97 : UInt8)).length = 2 := by decide
  obtain ⟨s₁, s₂, s₃, s₄, sought, wrote, position, _, back, got⟩ :=
    round_trip (s := State.started) .started upwards_succeeds () 95 _ inRange (Nat.le_refl _)
  rw [two] at wrote got
  exact ⟨s₁, s₂, s₃, s₄, sought, wrote, position, back, got⟩

end Ldd3.Scull
