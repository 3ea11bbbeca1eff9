import Mathlib.Algebra.Ring.Nat
import Ldd3.Pres.Device

/-!
PERSISTENT RESERVE OUT of `scst_pres.c` and `scst_targ.c`. A command comes from a nexus and carries a
parameter list. Its effect is a new device, a status and what is sent to other nexuses: unit attentions
and aborts. A fault is a pointer that leads nowhere, or an access outside the memory of the parameter
list.
-/

namespace Ldd3.Pres

/-- The number that bytes hold, least significant byte first. -/
def leNat : List UInt8 → Nat
  | [] => 0
  | b :: bs => b.toNat + 256 * leNat bs

/-- The parameter list: `size` bytes in `mapped` bytes of memory, which are whole pages. -/
structure Buffer where
  mem : Nat → UInt8
  size : Nat
  mapped : Nat
  inside : size ≤ mapped
  page : 4096 ≤ mapped

namespace Buffer

def bytes (b : Buffer) (off n : Nat) : List UInt8 := (List.range n).map fun i => b.mem (off + i)

def key (b : Buffer) : Key := UInt64.ofNat (leNat (b.bytes 0 8))

def actionKey (b : Buffer) : Key := UInt64.ofNat (leNat (b.bytes 8 8))

def be16 (b : Buffer) (off : Nat) : Nat := leNat (b.bytes off 2).reverse

def be32 (b : Buffer) (off : Nat) : Nat := leNat (b.bytes off 4).reverse

/-- `(buffer[off] >> shift) & 0x01` -/
def flag (b : Buffer) (off : Nat) (shift : UInt8) : Bool := (b.mem off >>> shift) &&& 0x01 ≠ 0

end Buffer

inductive Fault where
  | registrant | holder | buffer
  deriving DecidableEq

inductive Sense where
  | reservationReleased | reservationPreempted | registrationsPreempted | clearedByAnotherIni
  deriving DecidableEq

inductive Event where
  | ua (t : Nat) (sense : Sense)
  | abort (t : Nat)
  deriving DecidableEq

/-- The byte that is wrong, and the bit of it. -/
abbrev Place := Option (Nat × Option Nat)

inductive Status where
  | good | aborted | reservationConflict | busy | invalidOpcode | parameterListLengthInvalid | invalidRelease
  | invalidFieldInCdb (place : Place)
  | invalidFieldInParmList (place : Place)
  deriving DecidableEq

structure Outcome where
  dev : Device
  status : Status
  events : List Event
  deriving DecidableEq

def refuse (d : Device) (status : Status) : Outcome := ⟨d, status, []⟩

/-- A target of `scst_template_list` whose driver knows transport identifiers. -/
structure Target where
  protocol : UInt8
  relTgtId : UInt16
  forwarding : Bool

/-- What a command meets outside the device: memory, the answers to its aborts, the targets. -/
structure Env where
  alloc : Allocator
  abortCounter : Bool
  mgmt : Nat → Bool
  targets : List Target

structure Cmd where
  cdb1 : UInt8
  cdb2 : UInt8
  buffer : Buffer
  /-- `scst_dev_reserved`, the reservation of the older kind. -/
  reserved : Bool
  aborted : Bool

def Cmd.action (c : Cmd) : UInt8 := c.cdb1 &&& 0x1f

def Cmd.scope (c : Cmd) : UInt8 := c.cdb2 >>> 4

def Cmd.type (c : Cmd) : UInt8 := c.cdb2 &&& 0x0f

/-! ### Transport identifiers in memory -/

theorem scstTidSize_pos (tid : List UInt8) : 4 ≤ scstTidSize tid := by
  unfold scstTidSize tidCommonSize
  split <;> omega

theorem scstTidSize_congr {tid tid' : List UInt8} (same : ∀ i < 4, tid.getD i 0 = tid'.getD i 0) :
    scstTidSize tid = scstTidSize tid' := by
  unfold scstTidSize
  rw [same 0 (by decide), same 2 (by decide), same 3 (by decide)]

theorem getD_bytes (b : Buffer) (off : Nat) {i n : Nat} (low : i < n) : (b.bytes off n).getD i 0 = b.mem (off + i) := by
  simp [Buffer.bytes, List.getD_eq_getElem?_getD, low]

def Buffer.transportId (b : Buffer) (off : Nat) : TransportId where
  bytes := b.bytes off (scstTidSize (b.bytes off 4))
  sized := by
    have long := scstTidSize_pos (b.bytes off 4)
    have length : (b.bytes off (scstTidSize (b.bytes off 4))).length = scstTidSize (b.bytes off 4) := by
      simp [Buffer.bytes]
    rw [length]
    refine scstTidSize_congr fun i low => ?_
    rw [getD_bytes b off low, getD_bytes b off (by omega)]

theorem size_secure {tid : List UInt8} (iscsi : tid.getD 0 0 &&& 0x0f = protocolIscsi)
    (sized : tid.length = scstTidSize tid) : scstTidSize (tid.set (tid.length - 1) 0) = scstTidSize tid := by
  have size : scstTidSize tid = (tid.getD 2 0).toNat * 256 + (tid.getD 3 0).toNat + 4 := if_pos iscsi
  refine scstTidSize_congr fun i low => ?_
  rw [List.getD_eq_getElem?_getD, List.getD_eq_getElem?_getD, List.getElem?_set]
  by_cases last : tid.length - 1 = i
  · -- only the length byte of an identifier without a name can be the last one
    have three : i = 3 := by omega
    have zero : (tid.getD 3 0).toNat = 0 := by omega
    have byte : tid.getD 3 0 = 0 := UInt8.toNat_inj.mp zero
    rw [if_pos last, if_pos (by omega), three, ← List.getD_eq_getElem?_getD, byte]
    rfl
  · rw [if_neg last]

/-- `tid_secure` -/
def tidSecure (tid : TransportId) : TransportId :=
  if iscsi : tid.protocol = protocolIscsi then
    ⟨tid.bytes.set (tid.bytes.length - 1) 0, by rw [List.length_set, size_secure iscsi tid.sized, tid.sized]⟩
  else tid

/-- `scst_tid_size` reads the first byte, and the length behind it if that is of an iSCSI identifier. -/
def Buffer.Headed (b : Buffer) (off : Nat) : Prop :=
  off < b.mapped ∧ (b.mem off &&& 0x0f = protocolIscsi → off + 3 < b.mapped)

instance (b : Buffer) (off : Nat) : Decidable (b.Headed off) := inferInstanceAs (Decidable (_ ∧ _))

/-- The first loop of `scst_pr_register_with_spec_i_pt`: the identifiers of the list, if they fill it. -/
def specIPt (b : Buffer) (extSize offset : Nat) : Except Fault (Option (List TransportId)) :=
  if offset < extSize then
    if b.Headed (28 + offset) then
      let tid := b.transportId (28 + offset)
      if extSize < offset + tid.bytes.length then .ok none
      else if 28 + offset + tid.bytes.length ≤ b.mapped then
        match specIPt b extSize (offset + tid.bytes.length) with
        | .ok (some tids) => .ok (some (tidSecure tid :: tids))
        | stopped => stopped
      else .error .buffer
    else .error .buffer
  else .ok (some [])
termination_by b.mapped - offset
decreasing_by
  rename_i fits
  have := scstTidSize_pos (b.transportId (28 + offset)).bytes
  have := (b.transportId (28 + offset)).sized
  omega

/-! ### Unit attentions and aborts -/

def scstPrSendUaReg (reg : Registrant) (sense : Sense) : List Event := reg.tgtDev.toList.map (Event.ua · sense)

def scstPrSendUaAll (d : Device) (excludeReg : Option Nat) (sense : Sense) : List Event :=
  d.devRegistrantsList.flatMap fun r => if some r.ref ≠ excludeReg then scstPrSendUaReg r sense else []

def scstPrAbortReg (env : Env) (d : Device) (sender : Nat) (reg : Registrant) : List Event :=
  match reg.tgtDev with
  | none => []
  | some t =>
    if env.mgmt t then
      .abort t :: if t ≠ sender ∧ ¬ d.tas then [.ua t .clearedByAnotherIni] else []
    else []

/-! ### Registering -/

def setKey (p : Nat) (key : Key) (r : Registrant) : Registrant := if r.ref = p then { r with key := key } else r

/-- A change of key that can be taken back. -/
def changeKey (p : Nat) (key : Key) (r : Registrant) : Registrant :=
  if r.ref = p then { r with rollbackKey := r.key, key := key } else r

/-- A device and `rollback_list`. -/
structure Work where
  dev : Device
  rollback : List Nat

def registerTid (env : Env) (key : Key) (rel : UInt16) (w : Work) (tid : TransportId) : Except (Status × Work) Work :=
  match scstPrFindReg w.dev (some tid) rel with
  | none =>
    match scstPrAddRegistrant env.alloc w.dev tid rel key with
    | none => .error (.busy, w)
    | some (d, p) => .ok ⟨d, w.rollback ++ [p]⟩
  | some reg =>
    if reg.key = key then .ok w
    else .ok ⟨{ w.dev with devRegistrantsList := w.dev.devRegistrantsList.map (changeKey reg.ref key) },
      w.rollback ++ [reg.ref]⟩

/-- A bare iSCSI name stands for the nexuses with that name. -/
def wildcard (d : Device) (tid : TransportId) : List TransportId :=
  if tid.protocol = protocolIscsi ∧ tid.fmt = 0x00 then
    (d.tgtDevs.filter fun t => t.listed && tidEqual t.transportId (some tid)).filterMap TgtDev.transportId
  else [tid]

def registerTids (env : Env) (key : Key) (rel : UInt16) : Work → List TransportId → Except (Status × Work) Work
  | w, [] => .ok w
  | w, tid :: tids =>
    match (wildcard w.dev tid).foldlM (registerTid env key rel) w with
    | .ok w => registerTids env key rel w tids
    | .error stopped => .error stopped

def scstPrRegisterWithSpecIPt (env : Env) (b : Buffer) (rel : UInt16) (w : Work) :
    Except Fault (Except (Status × Work) Work) :=
  let extSize := b.be32 24
  -- the sum is an `unsigned int`
  if b.size < (extSize + 28) % 2 ^ 32 then .ok (.error (.parameterListLengthInvalid, w))
  else
    match specIPt b extSize 0 with
    | .error fault => .error fault
    | .ok none => .ok (.error (.invalidFieldInParmList (some (24, none)), w))
    | .ok (some tids) => .ok (registerTids env b.actionKey rel w tids)

/-- The nexus registers itself unless the list has done it. -/
def registerSelf (env : Env) (b : Buffer) (own : TransportId) (rel : UInt16) (w : Work) : Except (Status × Work) Work :=
  match scstPrFindReg w.dev (some own) rel with
  | some _ => .ok w
  | none =>
    match scstPrAddRegistrant env.alloc w.dev own rel b.actionKey with
    | none => .error (.busy, w)
    | some (d, p) => .ok ⟨d, w.rollback ++ [p]⟩

def scstPrRegisterOnTgtId (env : Env) (b : Buffer) (own : TransportId) (listed : Bool) (rel : UInt16) (w : Work) :
    Except Fault (Except (Status × Work) Work) :=
  if listed then
    match scstPrRegisterWithSpecIPt env b rel w with
    | .error fault => .error fault
    | .ok (.error stopped) => .ok (.error stopped)
    | .ok (.ok w) => .ok (registerSelf env b own rel w)
  else .ok (registerSelf env b own rel w)

def scstPrRegisterAllTgPt (env : Env) (b : Buffer) (own : TransportId) (listed : Bool) :
    List Target → Work → Except Fault (Except (Status × Work) Work)
  | [], w => .ok (.ok w)
  | tgt :: tgts, w =>
    if tgt.protocol ≠ own.protocol ∨ tgt.relTgtId = 0 ∨ tgt.forwarding then
      scstPrRegisterAllTgPt env b own listed tgts w
    else
      match scstPrRegisterOnTgtId env b own listed tgt.relTgtId w with
      | .ok (.ok w) => scstPrRegisterAllTgPt env b own listed tgts w
      | stopped => stopped

def Device.reg (d : Device) (p : Nat) : Option Registrant := d.devRegistrantsList.find? fun r => r.ref = p

/-- Back to the key before. -/
def restoreKey (p : Nat) (r : Registrant) : Registrant :=
  if r.ref = p then { r with key := r.rollbackKey, rollbackKey := 0 } else r

/-- `out_rollback` of `__scst_pr_register` -/
def rollback : Device → List Nat → Except Fault Device
  | d, [] => .ok d
  | d, p :: rest =>
    match d.reg p with
    | none => .error .registrant
    | some reg =>
      if reg.rollbackKey = 0 then rollback (scstPrRemoveRegistrant d reg) rest
      else rollback { d with devRegistrantsList := d.devRegistrantsList.map (restoreKey p) } rest

def settle (done : List Nat) (r : Registrant) : Registrant := if r.ref ∈ done then { r with rollbackKey := 0 } else r

/-- `__scst_pr_register` -/
def registerOrRollback (env : Env) (d : Device) (b : Buffer) (own : TransportId) (rel : UInt16)
    (listed allTgPt : Bool) : Except Fault (Device × Status) :=
  let registered :=
    if allTgPt then scstPrRegisterAllTgPt env b own listed env.targets ⟨d, []⟩
    else scstPrRegisterOnTgtId env b own listed rel ⟨d, []⟩
  match registered with
  | .error fault => .error fault
  | .ok (.ok w) =>
    .ok ({ w.dev with devRegistrantsList := w.dev.devRegistrantsList.map (settle w.rollback) }, .good)
  | .ok (.error (status, w)) =>
    match rollback w.dev w.rollback with
    | .error fault => .error fault
    | .ok d => .ok (d, status)

def scstPrUnregister (d : Device) (reg : Registrant) : Device × List Event :=
  let left := scstPrRemoveRegistrant d reg
  (left, if scstPrIsHolder d (some reg.ref) && !left.prIsSet &&
      (d.prType == typeWriteExclusiveRegonly || d.prType == typeExclusiveAccessRegonly) then
    scstPrSendUaAll left none .reservationReleased else [])

def scstPrUnregisterAllTgPt (tid : TransportId) : List Target → Device → Device × List Event
  | [], d => (d, [])
  | tgt :: tgts, d =>
    if tgt.protocol ≠ tid.protocol then scstPrUnregisterAllTgPt tid tgts d
    else
      match scstPrFindReg d (some tid) tgt.relTgtId with
      | none => scstPrUnregisterAllTgPt tid tgts d
      | some reg =>
        let (left, sent) := scstPrUnregister d reg
        let (last, later) := scstPrUnregisterAllTgPt tid tgts left
        (last, sent ++ later)

/-- `dev->pr_generation++` and `dev->pr_aptpl = aptpl` -/
def recordRegistration (d : Device) (aptpl : Bool) (events : List Event) : Outcome :=
  ⟨{ d with prGeneration := d.prGeneration + 1, prAptpl := aptpl }, .good, events⟩

/-- A nexus that is not registered yet. -/
def registerNew (env : Env) (d : Device) (t : TgtDev) (own : TransportId) (b : Buffer) (listed : Bool) :
    Except Fault Outcome :=
  let aptpl := b.flag 20 0
  if b.actionKey = 0 then .ok (recordRegistration d aptpl [])
  else
    match registerOrRollback env d b own t.relTgtId listed (b.flag 20 2) with
    | .error fault => .error fault
    | .ok (d, .good) => .ok (recordRegistration d aptpl [])
    | .ok (d, status) => .ok ⟨d, status, []⟩

/-- A nexus that is registered: a new key, or none. -/
def registerAgain (env : Env) (d : Device) (own : TransportId) (reg : Registrant) (b : Buffer) : Outcome :=
  let aptpl := b.flag 20 0
  if b.actionKey = 0 then
    let (left, sent) := if b.flag 20 2 then scstPrUnregisterAllTgPt own env.targets d else scstPrUnregister d reg
    recordRegistration left aptpl sent
  else recordRegistration { d with devRegistrantsList := d.devRegistrantsList.map (setKey reg.ref b.actionKey) } aptpl []

def scstPrRegister (env : Env) (d : Device) (t : TgtDev) (own : TransportId) (reg : Option Registrant) (b : Buffer) :
    Except Fault Outcome :=
  let listed := b.flag 20 3
  if ¬ listed ∧ b.size ≠ 24 then .ok (refuse d .parameterListLengthInvalid)
  else
    match reg with
    | none =>
      if b.key ≠ 0 then .ok (refuse d .reservationConflict) else registerNew env d t own b listed
    | some reg =>
      if reg.key ≠ b.key then .ok (refuse d .reservationConflict)
      else if listed then .ok (refuse d (.invalidFieldInParmList (some (20, some 3))))
      else .ok (registerAgain env d own reg b)

def scstPrRegisterAndIgnore (env : Env) (d : Device) (t : TgtDev) (own : TransportId) (reg : Option Registrant)
    (b : Buffer) : Except Fault Outcome :=
  if b.size ≠ 24 then .ok (refuse d .parameterListLengthInvalid)
  else
    match reg with
    | none => registerNew env d t own b false
    | some reg => .ok (registerAgain env d own reg b)

/-- The registrant that a reservation moves to. -/
def moveTo (env : Env) (d : Device) (tid : TransportId) (rel : UInt16) (key : Key) : Option (Device × Nat) :=
  match scstPrFindReg d (some tid) rel with
  | none => scstPrAddRegistrant env.alloc d tid rel key
  | some reg => some ({ d with devRegistrantsList := d.devRegistrantsList.map (setKey reg.ref key) }, reg.ref)

/-- The tests of `scst_pr_register_and_move`. -/
def moveRefusal (d : Device) (own : TransportId) (reg : Registrant) (b : Buffer) : Option Status :=
  -- the sum is an `unsigned int`
  if b.size < (b.be32 20 + 24) % 2 ^ 32 then some (.invalidFieldInParmList none)
  else if b.be32 20 < 24 then some (.invalidFieldInParmList (some (20, none)))
  else if reg.key ≠ b.key then some .reservationConflict
  else if ¬ d.prIsSet then some (.invalidFieldInCdb none)
  else if ¬ scstPrIsHolder d (some reg.ref) then some .reservationConflict
  else if b.actionKey = 0 then some (.invalidFieldInCdb (some (8, none)))
  else if b.size < (b.transportId 24).bytes.length + 24 then some (.invalidFieldInParmList none)
  else if allReg d.prType then some .reservationConflict
  else if own.equal (tidSecure (b.transportId 24)) then some (.invalidFieldInParmList (some (24, none)))
  else none

def scstPrRegisterAndMove (env : Env) (d : Device) (own : TransportId) (reg : Registrant) (b : Buffer) :
    Except Fault Outcome :=
  match moveRefusal d own reg b with
  | some status => .ok (refuse d status)
  | none =>
    let aptpl := b.flag 17 0
    let unreg := b.flag 17 1
    match moveTo env d (tidSecure (b.transportId 24)) (UInt16.ofNat (b.be16 18)) b.actionKey with
    | none => .ok (refuse d .busy)
    | some (moved, p) =>
      let held := scstPrSetHolder moved p moved.prScope moved.prType
      if unreg then
        match held.reg reg.ref with
        | none => .error .registrant
        | some reg => .ok (recordRegistration (scstPrRemoveRegistrant held reg) aptpl [])
      else .ok (recordRegistration held aptpl [])

/-! ### Reserving -/

def scstPrReserve (d : Device) (reg : Registrant) (c : Cmd) : Outcome :=
  if c.buffer.size ≠ 24 then refuse d .parameterListLengthInvalid
  else if ¬ scstPrTypeValid c.type then refuse d (.invalidFieldInCdb (some (2, some 0)))
  else if c.scope ≠ scopeLu then refuse d (.invalidFieldInCdb (some (2, some 4)))
  else if reg.key ≠ c.buffer.key then refuse d .reservationConflict
  else if ¬ d.prIsSet then ⟨scstPrSetHolder d reg.ref c.scope c.type, .good, []⟩
  else if ¬ scstPrIsHolder d (some reg.ref) then refuse d .reservationConflict
  else if d.prScope ≠ c.scope ∨ d.prType ≠ c.type then refuse d .reservationConflict
  else ⟨d, .good, []⟩

def scstPrRelease (d : Device) (reg : Registrant) (c : Cmd) : Outcome :=
  if c.buffer.size ≠ 24 then refuse d .parameterListLengthInvalid
  else if ¬ d.prIsSet then ⟨d, .good, []⟩
  else if reg.key ≠ c.buffer.key then refuse d .reservationConflict
  else if ¬ scstPrIsHolder d (some reg.ref) then ⟨d, .good, []⟩
  else if d.prScope ≠ c.scope ∨ d.prType ≠ c.type then refuse d .invalidRelease
  else
    let free := scstPrClearReservation d
    ⟨free, .good, if d.prType == typeWriteExclusiveRegonly || d.prType == typeExclusiveAccessRegonly ||
        d.prType == typeWriteExclusiveAllReg || d.prType == typeExclusiveAccessAllReg then
      scstPrSendUaAll free (some reg.ref) .reservationReleased else []⟩

def scstPrClear (d : Device) (reg : Registrant) (c : Cmd) : Outcome :=
  if c.buffer.size ≠ 24 then refuse d .parameterListLengthInvalid
  else if reg.key ≠ c.buffer.key then refuse d .reservationConflict
  else
    let left := d.devRegistrantsList.foldl scstPrRemoveRegistrant d
    ⟨{ left with prGeneration := left.prGeneration + 1 }, .good,
      scstPrSendUaAll d (some reg.ref) .reservationPreempted⟩

/-- The loops over `preempt_list`: each registrant of it is removed, the sender itself only if it is
not spared. -/
def preemptEach (env : Env) (abort spare : Bool) (sender : Nat) (self : Nat) :
    List Registrant → Device → Device × List Event
  | [], d => (d, [])
  | r :: rest, d =>
    let aborted := if abort then scstPrAbortReg env d sender r else []
    let told := if r.ref ≠ self then scstPrSendUaReg r .registrationsPreempted else []
    let left := if spare ∧ r.ref = self then d else scstPrRemoveRegistrant d r
    let (last, later) := preemptEach env abort spare sender self rest left
    (last, aborted ++ told ++ later)

/-- `done` of `scst_pr_do_preempt` -/
def preempted (d : Device) (events : List Event) : Outcome :=
  ⟨{ d with prGeneration := d.prGeneration + 1 }, .good, events⟩

/-- Preempting by key, with nobody to hold the reservation afterwards who did not before. -/
def preemptKey (env : Env) (d : Device) (abort spare : Bool) (sender : Nat) (reg : Registrant) (key : Key) : Outcome :=
  let list := scstPrFindRegistrantsListKey d key
  if list.isEmpty then refuse d .reservationConflict
  else
    let (left, sent) := preemptEach env abort spare sender reg.ref list d
    preempted left sent

def scstPrDoPreempt (env : Env) (d : Device) (t : TgtDev) (reg : Registrant) (c : Cmd) (abort : Bool) :
    Except Fault Outcome :=
  let actionKey := c.buffer.actionKey
  if c.buffer.size ≠ 24 then .ok (refuse d .parameterListLengthInvalid)
  else if ¬ scstPrTypeValid c.type then .ok (refuse d (.invalidFieldInCdb (some (1, some 0))))
  else if reg.key ≠ c.buffer.key then .ok (refuse d .reservationConflict)
  else if ¬ d.prIsSet then .ok (preemptKey env d abort true t.id reg actionKey)
  else if allReg d.prType then
    if actionKey = 0 then
      let (left, sent) := preemptEach env abort true t.id reg.ref (scstPrFindRegistrantsListAll d reg) d
      .ok (preempted (scstPrSetHolder left reg.ref c.scope c.type) sent)
    else .ok (preemptKey env d abort true t.id reg actionKey)
  else
    match d.prHolder.bind d.reg with
    | none => .error .holder
    | some holder =>
      if holder.key ≠ actionKey then
        if actionKey = 0 then .ok (refuse d (.invalidFieldInParmList (some (8, none))))
        else .ok (preemptKey env d abort false t.id reg actionKey)
      else
        let (left, sent) := preemptEach env abort true t.id reg.ref (scstPrFindRegistrantsListKey d actionKey) d
        let taken := scstPrSetHolder left reg.ref c.scope c.type
        .ok (preempted taken (sent ++
          if d.prType ≠ c.type ∨ d.prScope ≠ c.scope then
            scstPrSendUaAll taken (some reg.ref) .reservationReleased else []))

def scstPrPreempt (env : Env) (d : Device) (t : TgtDev) (reg : Registrant) (c : Cmd) : Except Fault Outcome :=
  scstPrDoPreempt env d t reg c false

def scstPrPreemptAndAbort (env : Env) (d : Device) (t : TgtDev) (reg : Registrant) (c : Cmd) : Except Fault Outcome :=
  if env.abortCounter then scstPrDoPreempt env d t reg c true else .ok (refuse d .busy)

/-! ### The command -/

inductive Action where
  | register | reserve | release | clear | preempt | preemptAndAbort | registerAndIgnore | registerAndMove
  deriving DecidableEq

def Cmd.serviceAction (c : Cmd) : Option Action :=
  [.register, .reserve, .release, .clear, .preempt, .preemptAndAbort, .registerAndIgnore, .registerAndMove][c.action.toNat]?

/-- The tests of `scst_persistent_reserve_out_local` before the service action. -/
def precheck (t : TgtDev) (c : Cmd) : Option Status :=
  let action := c.serviceAction
  let registers := action = some .register ∨ action = some .registerAndIgnore
  if ¬ registers ∧ t.registrant = none then some .reservationConflict
  else if ¬ registers ∧ action ≠ some .clear ∧ c.scope ≠ scopeLu then some (.invalidFieldInCdb (some (2, some 4)))
  else if action ≠ some .register ∧ action ≠ some .registerAndMove ∧ c.buffer.flag 20 3 then
    some (.invalidFieldInParmList (some (20, some 3)))
  else if ¬ registers ∧ action ≠ some .registerAndMove ∧ c.buffer.flag 20 2 then
    some (.invalidFieldInParmList (some (20, some 2)))
  else none

def serve (env : Env) (d : Device) (t : TgtDev) (own : TransportId) (reg : Option Registrant) (c : Cmd) :
    Except Fault Outcome :=
  match c.serviceAction, reg with
  | some .register, reg => scstPrRegister env d t own reg c.buffer
  | some .registerAndIgnore, reg => scstPrRegisterAndIgnore env d t own reg c.buffer
  | none, _ => .ok (refuse d (.invalidFieldInCdb (some (1, some 0))))
  | some _, none => .error .registrant
  | some .reserve, some reg => .ok (scstPrReserve d reg c)
  | some .release, some reg => .ok (scstPrRelease d reg c)
  | some .clear, some reg => .ok (scstPrClear d reg c)
  | some .preempt, some reg => scstPrPreempt env d t reg c
  | some .preemptAndAbort, some reg => scstPrPreemptAndAbort env d t reg c
  | some .registerAndMove, some reg => scstPrRegisterAndMove env d own reg c.buffer

/-- `tgt_dev->registrant`, followed. -/
def TgtDev.reg (d : Device) (t : TgtDev) : Except Fault (Option Registrant) :=
  match t.registrant with
  | none => .ok none
  | some p =>
    match d.reg p with
    | none => .error .registrant
    | some reg => .ok (some reg)

def scstPersistentReserveOutLocal (env : Env) (d : Device) (t : TgtDev) (c : Cmd) : Except Fault Outcome :=
  match t.transportId with
  -- this nexus is one of `not_pr_supporting_tgt_devs_num`
  | none => .ok (refuse d .invalidOpcode)
  | some own =>
    if d.notPrSupportingTgtDevsNum ≠ 0 then .ok (refuse d .invalidOpcode)
    else if c.reserved then .ok (refuse d .reservationConflict)
    else if c.buffer.size = 0 then .ok ⟨d, .good, []⟩
    else
      match precheck t c with
      | some status => .ok (refuse d status)
      | none =>
        if c.aborted then .ok (refuse d .aborted)
        else
          match t.reg d with
          | .error fault => .error fault
          | .ok reg => serve env d t own reg c

end Ldd3.Pres
