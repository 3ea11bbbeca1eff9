import Ldd3.Base.Heap
import Ldd3.Base.Words

/-!
The device of `scull0/scull.c`: a list of `struct qset`, each with an array of `scull_qset` pointers
to quanta of `scull_quantum` bytes. List nodes, arrays and quanta are blocks of a heap that
`vmalloc` adds to and `vfree` takes from; it never runs out of addresses. An access to anything but a
live block of the right kind, or past its end, is an `Oops`, and so is a call that never ends.

Calls are whole: each runs between the `down_interruptible` and the `up` of `scull.sema`. A `signal`
makes the `down_interruptible` fail. `fault` is the number of bytes a user copy misses. `logged` are
the elements of the pointer array that a call reads only to print them; these reads are not checked
and their values are not used.
-/

namespace Ldd3.Scull

open Base.Words

/-- 0 is `NULL`. -/
abbrev Addr := Nat

inductive Block where
  | raw
  | qset (next data : Addr)
  | slots (ptrs : List Addr)
  | quantum (bytes : List UInt8)

abbrev Heap := Finmap fun _ : Addr => Block

inductive Oops where
  | fault (a : Addr)
  | hang
  deriving DecidableEq

/-- The last 4095 values of a pointer are error codes. -/
def isErr (a : Addr) : Bool := 2 ^ 64 - 4095 ≤ a && a < 2 ^ 64

/-- `ERR_PTR(-EFAULT)` -/
def errPtrEfault : Addr := 2 ^ 64 - 14

structure Params where
  quantum : Nat
  qset : Nat
  quantum_pos : 0 < quantum
  qset_pos : 0 < qset
  small : quantum * qset < 2 ^ 31

/-- The values `scull_quantum` and `scull_qset` are loaded with. -/
def Params.loaded : Params := ⟨10, 10, by decide, by decide, by decide⟩

/-- `scull.size`, as `start` sets it. -/
def Params.size (p : Params) : Nat := p.quantum * p.qset % 2 ^ 64

/-- The answer to each call of `vmalloc`: `NULL` or a block that was not live, never an error code. -/
structure Vmalloc where
  answer : Nat → Heap → Addr
  fresh : ∀ n h, answer n h ≠ 0 → answer n h ∉ h
  noErr : ∀ n h, isErr (answer n h) = false

structure Dev where
  data : Addr
  sema : Int
  heap : Heap
  calls : Nat

/-! ### Memory -/

def Dev.vmalloc (v : Vmalloc) (d : Dev) : Addr × Dev :=
  let a := v.answer d.calls d.heap
  (a, { d with heap := if a = 0 then d.heap else d.heap.insert a .raw, calls := d.calls + 1 })

def Dev.vfree (d : Dev) (a : Addr) : Except Oops Dev :=
  if a = 0 then .ok d
  else if a ∈ d.heap then .ok { d with heap := d.heap.erase a }
  else .error (.fault a)

/-- Fills a live block with zeros; `b` is what the zeros are at its type. -/
def Dev.memset (d : Dev) (a : Addr) (b : Block) : Except Oops Dev :=
  if a ∈ d.heap then .ok { d with heap := d.heap.insert a b } else .error (.fault a)

def Dev.qset (d : Dev) (a : Addr) : Except Oops (Addr × Addr) :=
  match d.heap.lookup a with
  | some (.qset next data) => .ok (next, data)
  | _ => .error (.fault a)

def Dev.setNext (d : Dev) (a next : Addr) : Except Oops Dev := do
  let (_, data) ← d.qset a
  return { d with heap := d.heap.insert a (.qset next data) }

def Dev.setData (d : Dev) (a data : Addr) : Except Oops Dev := do
  let (next, _) ← d.qset a
  return { d with heap := d.heap.insert a (.qset next data) }

def Dev.slot (d : Dev) (a : Addr) (i : Int) : Except Oops Addr :=
  match d.heap.lookup a with
  | some (.slots ptrs) =>
    match if 0 ≤ i then ptrs[i.toNat]? else none with
    | some ptr => .ok ptr
    | none => .error (.fault a)
  | _ => .error (.fault a)

def Dev.setSlot (d : Dev) (a : Addr) (i : Int) (ptr : Addr) : Except Oops Dev :=
  match d.heap.lookup a with
  | some (.slots ptrs) =>
    if 0 ≤ i ∧ i < ptrs.length then .ok { d with heap := d.heap.insert a (.slots (ptrs.set i.toNat ptr)) }
    else .error (.fault a)
  | _ => .error (.fault a)

def overwrite (bytes : List UInt8) (offset : Nat) (xs : List UInt8) : List UInt8 :=
  bytes.take offset ++ xs ++ bytes.drop (offset + xs.length)

def Dev.copyOut (d : Dev) (a : Addr) (offset : Int) (n : Nat) : Except Oops (List UInt8) :=
  match d.heap.lookup a with
  | some (.quantum bytes) =>
    if 0 ≤ offset ∧ offset + n ≤ bytes.length then .ok ((bytes.drop offset.toNat).take n)
    else .error (.fault a)
  | _ => .error (.fault a)

def Dev.copyIn (d : Dev) (a : Addr) (offset : Int) (xs : List UInt8) : Except Oops Dev :=
  match d.heap.lookup a with
  | some (.quantum bytes) =>
    if 0 ≤ offset ∧ offset + xs.length ≤ bytes.length then
      .ok { d with heap := d.heap.insert a (.quantum (overwrite bytes offset.toNat xs)) }
    else .error (.fault a)
  | _ => .error (.fault a)

/-! ### `scull_follow` -/

/-- What a `struct qset **` points at: `dev->data` or the `next` field of a node. -/
inductive Slot where
  | head
  | next (node : Addr)

def Dev.load (d : Dev) : Slot → Except Oops Addr
  | .head => .ok d.data
  | .next a => do
    let (next, _) ← d.qset a
    return next

def Dev.store (d : Dev) (ptr : Addr) : Slot → Except Oops Dev
  | .head => .ok { d with data := ptr }
  | .next a => d.setNext a ptr

/-- `n` more passes of the loop, with its variables `qtr` and `cur`. -/
def followLoop (v : Vmalloc) : Nat → Dev → Slot → Addr → Except Oops (Addr × Dev)
  | 0, d, _, cur => .ok (cur, d)
  | n + 1, d, qtr, _ => do
    let ptr ← d.load qtr
    if ptr = 0 then
      let (a, d) := d.vmalloc v
      let d ← d.store a qtr
      if isErr a then return (errPtrEfault, d)
      let d ← d.memset a (.qset 0 0)
      followLoop v n d (.next a) a
    else followLoop v n d (.next ptr) ptr

/-- Every `int` is at most the largest one, so for that index the loop never ends. -/
def scullFollow (v : Vmalloc) (d : Dev) (idx : Int) : Except Oops (Addr × Dev) :=
  if idx = 2 ^ 31 - 1 then .error .hang else followLoop v (idx + 1).toNat d .head 0

/-! ### `scull_trim` -/

def trimQuantum (d : Dev) (ptr : Addr) : Except Oops Dev :=
  if ptr ≠ 0 then d.vfree ptr else .ok d

/-- `n` more passes of the loop over the array `data`, from slot `i` on. -/
def trimSlots : Nat → Dev → Addr → Nat → Except Oops Dev
  | 0, d, _, _ => .ok d
  | n + 1, d, data, i => do
    let ptr ← d.slot data i
    let d ← trimQuantum d ptr
    let d ← d.setSlot data i 0
    trimSlots n d data (i + 1)

def trimData (p : Params) (d : Dev) (qtr data : Addr) : Except Oops Dev :=
  if data ≠ 0 then do
    let d ← trimSlots p.qset d data 0
    let d ← d.vfree data
    d.setData qtr 0
  else .ok d

/-- The body of the loop for the node `qtr`; the result is `next`. -/
def trimNode (p : Params) (d : Dev) (qtr : Addr) : Except Oops (Addr × Dev) := do
  let (_, data) ← d.qset qtr
  let d ← trimData p d qtr data
  let (next, _) ← d.qset qtr
  let d ← d.vfree qtr
  return (next, d)

def trimLoop (p : Params) : Nat → Dev → Addr → Except Oops Dev
  | 0, d, qtr => if qtr = 0 then .ok d else .error .hang
  | n + 1, d, qtr =>
    if qtr = 0 then .ok d
    else do
      let (next, d) ← trimNode p d qtr
      trimLoop p n d next

def Dev.down (d : Dev) : Dev := { d with sema := d.sema - 1 }

def Dev.up (d : Dev) : Dev := { d with sema := d.sema + 1 }

/-- Each pass frees a block, so there are no more passes than live blocks. -/
def scullTrim (p : Params) (d : Dev) (signal : Bool) : Except Oops Dev :=
  if signal then .ok d
  else do
    let d ← trimLoop p d.heap.keys.card d.down d.data
    return ({ d with data := 0 } : Dev).up

/-! ### `scull_open`, `scull_llseek`, `scull_read` and `scull_write` -/

/-- `O_ACCMODE` is 3 and `O_WRONLY` is 1. -/
def scullOpen (p : Params) (d : Dev) (signal : Bool) (flags : Nat) : Except Oops Dev :=
  if flags &&& 3 = 1 then scullTrim p d signal else .ok d

/-- `newpos` after the `switch`; `none` is its default case. -/
def seekTarget (p : Params) (fpos off whence : Int) : Option Int :=
  if whence = 0 then some off
  else if whence = 1 then some (toInt64 (fpos + off))
  else if whence = 2 then some (toInt64 (p.quantum * p.qset + off))
  else none

def scullLlseek (p : Params) (signal : Bool) (fpos off whence : Int) : Except Errno Int :=
  match seekTarget p fpos off whence with
  | none => .error .EINVAL
  | some newpos =>
    if newpos < 0 then .error .EINVAL
    else if signal then .error .EINVAL
    else .ok newpos

def Params.index (p : Params) (off : Int) : Int := toInt32 (toU64 off / p.size : Nat)

def Params.res (p : Params) (off : Int) : Int := toInt32 (toU64 off % p.size : Nat)

def Params.pos (p : Params) (off : Int) : Int := toInt32 (toU64 (p.res off) / p.quantum : Nat)

def Params.offset (p : Params) (off : Int) : Int := toInt32 (toU64 (p.res off) % p.quantum : Nat)

def Params.count (p : Params) (off : Int) (len : Nat) : Int :=
  toInt32 (min len (toU64 (p.quantum - toU64 (p.offset off))) : Nat)

structure Done where
  ret : Except Errno Int
  delivered : List UInt8
  off : Int
  dev : Dev
  logged : List Int

def scullRead (p : Params) (v : Vmalloc) (d : Dev) (signal : Bool) (off : Int) (len fault : Nat) :
    Except Oops Done :=
  if signal then .ok ⟨.error .EINVAL, [], off, d, []⟩
  else do
    let (curset, d) ← scullFollow v d.down (p.index off)
    if isErr curset then return ⟨.error .EFAULT, [], off, d.up, []⟩
    let (_, data) ← d.qset curset
    if data = 0 ∨ toU64 (p.pos off) ≥ p.qset then return ⟨.error .EFAULT, [], off, d.up, []⟩
    let ptr ← d.slot data (p.pos off)
    if ptr = 0 then return ⟨.error .EFAULT, [], off, d.up, []⟩
    let count := p.count off len
    let left := min fault (toU64 count)
    let bytes ← d.copyOut ptr (p.offset off) (toU64 count)
    if left ≠ 0 then return ⟨.error .EAGAIN, bytes.take (toU64 count - left), off, d.up, [p.pos off]⟩
    return ⟨.ok count, bytes, toInt64 (off + count), d.up, [p.pos off]⟩

/-- The pointer array of the node `qtr`, allocated if there is none; `none` is the `-EFAULT` exit. -/
def ensureData (p : Params) (v : Vmalloc) (d : Dev) (qtr : Addr) : Except Oops (Option Addr × Dev) := do
  let (_, data) ← d.qset qtr
  if data = 0 then
    let (a, d) := d.vmalloc v
    let d ← d.setData qtr a
    if isErr a then return (none, d)
    let d ← d.memset a (.slots (List.replicate p.qset 0))
    return (some a, d)
  else return (some data, d)

/-- The quantum in slot `pos`, allocated if there is none; `none` is the `-EFAULT` exit. -/
def ensureQuantum (p : Params) (v : Vmalloc) (d : Dev) (data : Addr) (pos : Int) :
    Except Oops (Option Addr × Dev) := do
  let ptr ← d.slot data pos
  if ptr = 0 then
    let (a, d) := d.vmalloc v
    let d ← d.setSlot data pos a
    if isErr a then return (none, d)
    let d ← d.memset a (.quantum (List.replicate p.quantum 0))
    return (some a, d)
  else return (some ptr, d)

def scullWrite (p : Params) (v : Vmalloc) (d : Dev) (signal : Bool) (off : Int) (user : List UInt8) (fault : Nat) :
    Except Oops Done :=
  if signal then .ok ⟨.error .EINVAL, [], off, d, []⟩
  else do
    let (qtr, d) ← scullFollow v d.down (p.index off)
    if isErr qtr then return ⟨.error .EFAULT, [], off, d.up, []⟩
    if toU64 (p.pos off) ≥ p.qset then return ⟨.error .EINVAL, [], off, d.up, []⟩
    let (data, d) ← ensureData p v d qtr
    match data with
    | none => return ⟨.error .EFAULT, [], off, d.up, []⟩
    | some data =>
      let (ptr, d) ← ensureQuantum p v d data (p.pos off)
      match ptr with
      | none => return ⟨.error .EFAULT, [], off, d.up, []⟩
      | some ptr =>
        let count := p.count off user.length
        let left := min fault (toU64 count)
        let d ← d.copyIn ptr (p.offset off) (user.take (toU64 count - left) ++ List.replicate left 0)
        if left ≠ 0 then return ⟨.error .EAGAIN, [], off, d.up, [p.pos off, p.pos off + 1]⟩
        return ⟨.ok count, [], toInt64 (off + count), d.up, [p.pos off, p.pos off + 1]⟩

/-- The device after `start`. -/
def Dev.started : Dev := ⟨0, 1, ∅, 0⟩

end Ldd3.Scull
