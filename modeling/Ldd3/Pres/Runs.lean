import Ldd3.Base.Steps
import Ldd3.Pres.Sessions
import Mathlib.Algebra.Order.BigOperators.Group.List
import Mathlib.Algebra.Order.Group.Nat

/-!
A device in use: any number of nexuses send PERSISTENT RESERVE OUT commands with any parameter lists,
memory may run out at any allocation, sessions come and go in between. No command follows a pointer that
leads nowhere. A command that fails leaves the device as it was. A registration is lost, and a
reservation ends, only for the reasons listed here.
-/

namespace Ldd3.Pres

open Base.Steps

/-! ### What a command keeps -/

theorem setKey_same (p : Nat) (key : Key) (r : Registrant) :
    (setKey p key r).ref = r.ref ∧ (setKey p key r).transportId = r.transportId ∧
      (setKey p key r).relTgtId = r.relTgtId ∧ (setKey p key r).tgtDev = r.tgtDev := by
  unfold setKey
  split <;> exact ⟨rfl, rfl, rfl, rfl⟩

theorem setKey_rollbackKey (p : Nat) (key : Key) (r : Registrant) : (setKey p key r).rollbackKey = r.rollbackKey := by
  unfold setKey
  split <;> rfl

/-- What there is to a reservation that moves. -/
theorem moveTo_inv {env : Env} {d there : Device} {tid : TransportId} {rel : UInt16} {key : Key} {p : Nat}
    (found : moveTo env d tid rel key = some (there, p)) :
    scstPrAddRegistrant env.alloc d tid rel key = some (there, p) ∨
      ∃ reg ∈ d.devRegistrantsList, p = reg.ref ∧
        there = { d with devRegistrantsList := d.devRegistrantsList.map (setKey reg.ref key) } := by
  unfold moveTo at found
  cases known : scstPrFindReg d (some tid) rel with
  | none =>
    rw [known] at found
    exact Or.inl found
  | some reg =>
    rw [known] at found
    cases found
    exact Or.inr ⟨reg, (findReg_some known).1, rfl, rfl⟩

theorem moveTo_frame {env : Env} {d there : Device} {tid : TransportId} {rel : UInt16} {key : Key} {p : Nat}
    (found : moveTo env d tid rel key = some (there, p)) :
    there = { d with devRegistrantsList := there.devRegistrantsList, tgtDevs := there.tgtDevs } ∧
      there.tgtDevs.map TgtDev.strip = d.tgtDevs.map TgtDev.strip := by
  rcases moveTo_inv found with added | ⟨reg, _, rfl, rfl⟩
  · obtain ⟨_, _, t, _, rfl⟩ := add_inv added
    exact ⟨rfl, strip_map_point _ _ _⟩
  · exact ⟨rfl, rfl⟩

namespace Device.Safe

variable {d : Device}

theorem recorded (safe : d.Safe) (aptpl : Bool) (events : List Event) : (recordRegistration d aptpl events).dev.Safe :=
  ⟨⟨safe.1.registry, safe.1.reserved.free, safe.1.reserved.held, safe.1.reserved.holder⟩, safe.2⟩

theorem setKey (safe : d.Safe) (p : Nat) {key : Key} (valid : key ≠ 0) :
    { d with devRegistrantsList := d.devRegistrantsList.map (Pres.setKey p key) }.Safe := by
  constructor
  · refine safe.1.rekey (setKey_same p key) fun r known => ?_
    unfold Pres.setKey
    split
    · exact valid
    · exact safe.1.registry.keys r known
  · intro r' known'
    obtain ⟨r, known, rfl⟩ := List.mem_map.mp known'
    rw [setKey_rollbackKey]
    exact safe.2 r known

theorem removes (safe : d.Safe) {list : List Registrant} {left : Device} (removes : Removes d list left) : left.Safe :=
  ⟨removes.ok safe.1, removes.settled safe.2⟩

theorem setHolder (safe : d.Safe) {p : Nat} (live : p ∈ d.devRegistrantsList.map Registrant.ref) {type : UInt8}
    (valid : scstPrTypeValid type = true) : (scstPrSetHolder d p scopeLu type).Safe :=
  ⟨⟨safe.1.registry, safe.1.reserved.setHolder live valid⟩, safe.2⟩

theorem moveTo (safe : d.Safe) {env : Env} {tid : TransportId} {rel : UInt16} {key : Key} {there : Device} {p : Nat}
    (valid : key ≠ 0) (found : Pres.moveTo env d tid rel key = some (there, p)) :
    there.Safe ∧ p ∈ there.devRegistrantsList.map Registrant.ref := by
  rcases moveTo_inv found with added | ⟨reg, mem, rfl, rfl⟩
  · have ok := safe.1.add valid added
    obtain ⟨_, _, t, _, rfl⟩ := add_inv added
    refine ⟨⟨ok, fun r known => ?_⟩, ?_⟩
    · rcases List.mem_append.mp known with old | new
      · exact safe.2 r old
      · rw [List.mem_singleton.mp new]
    · rw [List.map_append]
      exact List.mem_append_right _ (List.mem_singleton_self _)
  · refine ⟨safe.setKey reg.ref valid, ?_⟩
    exact List.mem_map.mpr ⟨_, List.mem_map_of_mem mem, (setKey_same _ _ _).1⟩

end Device.Safe

section

variable {env : Env} {d : Device} {t : TgtDev} {c : Cmd} {out : Outcome}

theorem Effect.safe (safe : d.Safe) (effect : Effect env d t c out) : out.dev.Safe := by
  cases effect with
  | refused failed => exact safe
  | rolledBack failed ok back =>
    refine ⟨ok, ?_⟩
    rw [Device.Settled, back.1]
    exact safe.2
  | idle => exact safe
  | recorded => exact safe.recorded _ _
  | registered valid registers =>
    have pending := (Pending.start safe.1 safe.2).registers valid registers
    exact Device.Safe.recorded pending.settle _ _
  | rekeyed own valid => exact (safe.setKey _ valid).recorded _ _
  | withdrawn own removes lost addressed => exact (safe.removes removes).recorded _ _
  | moved own valid set one holds found removes lost =>
    obtain ⟨there, live⟩ := safe.moveTo valid found
    have held := safe.1.reserved.held set
    have frame := (moveTo_frame found).1
    rw [(congrArg Device.prScope frame).trans held.2.1, congrArg Device.prType frame] at removes
    exact ((there.setHolder live held.1).removes removes).recorded _ _
  | reserved own unset valid => exact safe.setHolder (List.mem_map_of_mem own.1) valid
  | released own holds addressed => exact ⟨⟨safe.1.registry, Reserved.cleared d⟩, safe.2⟩
  | taken own valid removes spared ousted lost addressed =>
    refine ((safe.removes removes).setHolder ?_ valid).recorded _ _
    rw [removes.regs]
    refine List.mem_map_of_mem (List.mem_filter.mpr ⟨own.1, decide_eq_true fun listed => ?_⟩)
    obtain ⟨r, inside, same⟩ := List.mem_map.mp listed
    exact spared r inside same

theorem Effect.unchanged (effect : Effect env d t c out) (failed : out.status ≠ .good) :
    Unchanged d out.dev ∧ out.events = [] := by
  cases effect with
  | refused => exact ⟨⟨rfl, Or.inl rfl⟩, rfl⟩
  | rolledBack _ _ back => exact ⟨back, rfl⟩
  | _ => exact absurd rfl failed

theorem Effect.addressed (effect : Effect env d t c out) {e : Event} (sent : e ∈ out.events) : Addressed d e := by
  cases effect with
  | withdrawn _ _ _ addressed => exact addressed e sent
  | released _ _ addressed => exact addressed e sent
  | taken _ _ _ _ _ _ addressed => exact addressed e sent
  | _ => cases sent

/-! ### Registrations -/

/-- `r` is registered, with whatever key. -/
def Device.Has (d : Device) (r : Registrant) : Prop :=
  ∃ r' ∈ d.devRegistrantsList, r'.ref = r.ref ∧ r'.transportId = r.transportId ∧ r'.relTgtId = r.relTgtId

theorem Device.Has.of_mem {d : Device} {r : Registrant} (known : r ∈ d.devRegistrantsList) : d.Has r :=
  ⟨r, known, rfl, rfl, rfl⟩

theorem Device.Has.map {d d' : Device} {f : Registrant → Registrant}
    (same : ∀ r, (f r).ref = r.ref ∧ (f r).transportId = r.transportId ∧ (f r).relTgtId = r.relTgtId)
    (mapped : d'.devRegistrantsList = d.devRegistrantsList.map f) {r : Registrant} (has : d.Has r) : d'.Has r := by
  obtain ⟨r', known, ref, tid, rel⟩ := has
  obtain ⟨ref', tid', rel'⟩ := same r'
  refine ⟨f r', ?_, ref'.trans ref, tid'.trans tid, rel'.trans rel⟩
  rw [mapped]
  exact List.mem_map_of_mem known

theorem Device.Has.removes {d d' : Device} {list : List Registrant} (removes : Removes d list d') {r : Registrant}
    (has : d.Has r) : d'.Has r ∨ ∃ r' ∈ list, r'.ref = r.ref := by
  obtain ⟨r', known, same⟩ := has
  by_cases listed : r'.ref ∈ list.map Registrant.ref
  · obtain ⟨r'', inside, same'⟩ := List.mem_map.mp listed
    exact Or.inr ⟨r'', inside, same'.trans same.1⟩
  · refine Or.inl ⟨r', ?_, same⟩
    rw [removes.regs]
    exact List.mem_filter.mpr ⟨known, decide_eq_true listed⟩

theorem Device.Has.add {d d' : Device} {alloc : Allocator} {tid : TransportId} {rel : UInt16} {key : Key} {p : Nat}
    (added : scstPrAddRegistrant alloc d tid rel key = some (d', p)) {r : Registrant} (has : d.Has r) : d'.Has r := by
  obtain ⟨r', known, same⟩ := has
  obtain ⟨_, _, t, _, rfl⟩ := add_inv added
  exact ⟨r', List.mem_append_left _ known, same⟩

theorem Registers.has {alloc : Allocator} {key : Key} {w w' : Work} (registers : Registers alloc key w w')
    {r : Registrant} (has : w.dev.Has r) : w'.dev.Has r := by
  induction registers with
  | refl => exact has
  | add _ added ih => exact ih.add added
  | change _ mem other ih =>
    refine ih.map (fun r' => ?_) rfl
    unfold changeKey
    split <;> exact ⟨rfl, rfl, rfl⟩

theorem has_setKey {d : Device} {r : Registrant} (has : d.Has r) (p : Nat) (key : Key) :
    Device.Has { d with devRegistrantsList := d.devRegistrantsList.map (setKey p key) } r :=
  has.map (fun r' => ⟨(setKey_same p key r').1, (setKey_same p key r').2.1, (setKey_same p key r').2.2.1⟩) rfl

theorem has_moveTo {tid : TransportId} {rel : UInt16} {key : Key} {there : Device} {p : Nat}
    (found : moveTo env d tid rel key = some (there, p)) {r : Registrant} (has : d.Has r) : there.Has r := by
  rcases moveTo_inv found with added | ⟨reg, _, rfl, rfl⟩
  · exact has.add added
  · exact has_setKey has _ _

/-- A registrant stays registered, or there is a reason. -/
theorem Effect.stays (safe : d.Safe) (effect : Effect env d t c out) {r : Registrant}
    (known : r ∈ d.devRegistrantsList) : out.dev.Has r ∨ Lost d t c out.events r := by
  have has := Device.Has.of_mem known
  cases effect with
  | rolledBack _ _ back =>
    rw [back.1]
    exact Or.inl has
  | registered valid registers =>
    refine Or.inl ((registers.has has).map (fun r' => ?_) rfl)
    rw [settle_cases]
    exact ⟨rfl, rfl, rfl⟩
  | rekeyed own valid => exact Or.inl (has_setKey has _ _)
  | withdrawn own removes lost =>
    rcases has.removes removes with still | ⟨r', inside, same⟩
    · exact Or.inl still
    · rw [← safe.1.registry.reg_eq (removes.members r' inside) known same]
      exact Or.inr (lost r' inside)
  | @moved _ _ _ there p _ _ _ own valid set one holds found removes lost =>
    have held : (scstPrSetHolder there p there.prScope there.prType).Has r := has_moveTo found has
    rcases held.removes removes with still | ⟨r', inside, same⟩
    · exact Or.inl still
    · refine Or.inr (Or.inl ?_)
      rw [← same, lost r' inside]
      exact own.2
  | taken own valid removes spared ousted lost =>
    rcases has.removes removes with still | ⟨r', inside, same⟩
    · exact Or.inl still
    · rw [← safe.1.registry.reg_eq (removes.members r' inside) known same]
      exact Or.inr (lost r' inside)
  | _ => exact Or.inl has

end

/-- What READ KEYS and READ FULL STATUS tell about a registrant. -/
def Registrant.registration (r : Registrant) : Nat × TransportId × UInt16 × Key :=
  (r.ref, r.transportId, r.relTgtId, r.key)

def Device.registrations (d : Device) : List (Nat × TransportId × UInt16 × Key) :=
  d.devRegistrantsList.map Registrant.registration

theorem Effect.counts (safe : d.Safe) (effect : Effect env d t c out) :
    (out.dev.prGeneration = d.prGeneration ∧ out.dev.registrations = d.registrations) ∨
      out.dev.prGeneration = d.prGeneration + 1 := by
  cases effect with
  | rolledBack _ _ back =>
    rw [back.1]
    exact Or.inl ⟨rfl, rfl⟩
  | recorded => exact Or.inr rfl
  | registered valid registers =>
    have pending := (Pending.start safe.1 safe.2).registers valid registers
    exact Or.inr (congrArg (· + 1) pending.undoing.fields.1)
  | rekeyed => exact Or.inr rfl
  | withdrawn _ removes => exact Or.inr (congrArg (· + 1) removes.frame.1)
  | moved _ _ _ _ _ found removes =>
    have frame := congrArg Device.prGeneration (moveTo_frame found).1
    exact Or.inr (congrArg (· + 1) (removes.frame.1.trans frame))
  | taken _ _ removes => exact Or.inr (congrArg (· + 1) removes.frame.1)
  | _ => exact Or.inl ⟨rfl, rfl⟩

/-! ### Reservations -/

/-- `p` holds a reservation of type `type`. -/
def Device.Held (d : Device) (p : Nat) (type : UInt8) : Prop :=
  scstPrIsHolder d (some p) = true ∧ d.prType = type

theorem Device.Held.remove {d : Device} {type : UInt8} {reg r : Registrant} (known : r ∈ d.devRegistrantsList)
    (other : r.ref ≠ reg.ref) (holds : d.Held r.ref type) : (scstPrRemoveRegistrant d reg).Held r.ref type := by
  suffices kept : (vacate (listDel d reg) reg.ref).Held r.ref type from kept
  rcases vacate_cases (listDel d reg) reg.ref with ⟨same, _⟩ | ⟨same, set, all, _⟩ | ⟨_, set, ended⟩
  · rw [same]
    exact holds
  · rw [same]
    refine ⟨(isHolder_all ?_ _).mpr set, holds.2⟩
    exact all
  · rcases ended with ⟨_, empty⟩ | ⟨one, holder⟩
    · have left : r ∈ (listDel d reg).devRegistrantsList := List.mem_filter.mpr ⟨known, decide_eq_true other⟩
      rw [empty] at left
      cases left
    · have held := ((isHolder_one one r.ref).mp holds.1).2
      exact absurd (Option.some.inj (held.symm.trans holder)) other

theorem Device.Held.removes {d d' : Device} {type : UInt8} {list : List Registrant} (removes : Removes d list d')
    {r : Registrant} (known : r ∈ d.devRegistrantsList) (unlisted : r.ref ∉ list.map Registrant.ref)
    (holds : d.Held r.ref type) : d'.Held r.ref type := by
  induction removes with
  | nil d => exact holds
  | cons mem rest ih =>
    rw [List.map_cons, List.mem_cons, not_or] at unlisted
    refine ih ?_ unlisted.2 (holds.remove known unlisted.1)
    rw [remove_regs]
    exact List.mem_filter.mpr ⟨known, decide_eq_true unlisted.1⟩

theorem Device.Held.congr {d d' : Device} {p : Nat} {type : UInt8} (holds : d.Held p type)
    (set : d'.prIsSet = d.prIsSet) (same : d'.prType = d.prType) (holder : d'.prHolder = d.prHolder) :
    d'.Held p type := by
  unfold Device.Held
  rw [isHolder_congr set same holder, same]
  exact holds

theorem Device.Held.unchanged {d d' : Device} {p : Nat} {type : UInt8} (holds : d.Held p type)
    (unchanged : Unchanged d d') : d'.Held p type := by
  have set : d'.prIsSet = d.prIsSet := by rw [unchanged.1]
  have same : d'.prType = d.prType := by rw [unchanged.1]
  rcases unchanged.2 with holder | ⟨_, all, _⟩
  · exact holds.congr set same holder
  · refine ⟨(isHolder_all (by rw [same, all]) p).mpr ?_, same.trans holds.2⟩
    rw [set]
    exact isHolder_set holds.1

/-- Why `r` no longer holds the reservation: the sender is its own initiator port, it was evicted, or the
reservation was shared with the sender. -/
def Deprived (d : Device) (t : TgtDev) (c : Cmd) (r : Registrant) : Prop :=
  t.registrant = some r.ref ∨ tidEqual (some r.transportId) t.transportId = true ∨ Evicts d c r ∨
    allReg d.prType = true ∧ t.registrant ≠ none

theorem Lost.deprived {d : Device} {t : TgtDev} {c : Cmd} {events : List Event} {r : Registrant}
    (lost : Lost d t c events r) : Deprived d t c r := by
  rcases lost with own | same | ⟨evicts, _⟩
  · exact Or.inl own
  · exact Or.inr (Or.inl same)
  · exact Or.inr (Or.inr (Or.inl evicts))

section

variable {env : Env} {d : Device} {t : TgtDev} {c : Cmd} {out : Outcome}

theorem Effect.deprived (safe : d.Safe) (effect : Effect env d t c out) {type : UInt8} {r : Registrant}
    (known : r ∈ d.devRegistrantsList) (holds : d.Held r.ref type) (gone : ¬ out.dev.Held r.ref type) :
    Deprived d t c r := by
  cases effect with
  | rolledBack _ _ back => exact absurd (holds.unchanged back) gone
  | registered valid registers =>
    have pending := (Pending.start safe.1 safe.2).registers valid registers
    have fields := pending.undoing.fields
    exact absurd (holds.congr fields.2.1 fields.2.2 pending.kept) gone
  | @withdrawn _ list _ _ _ own removes lost =>
    by_cases listed : r.ref ∈ list.map Registrant.ref
    · obtain ⟨r', inside, same⟩ := List.mem_map.mp listed
      rw [← safe.1.registry.reg_eq (removes.members r' inside) known same]
      exact (lost r' inside).deprived
    · exact absurd (holds.removes removes known listed) gone
  | moved own valid set one holder =>
    have same := (holder.symm.trans ((isHolder_one one r.ref).mp holds.1).2)
    exact Or.inl (own.2.trans same)
  | reserved own unset => exact absurd ((isHolder_set holds.1).symm.trans unset) Bool.noConfusion
  | released own holder =>
    cases all : allReg d.prType with
    | true =>
      refine Or.inr (Or.inr (Or.inr ⟨all, ?_⟩))
      rw [own.2]
      exact Option.some_ne_none _
    | false =>
      have left := ((isHolder_one all _).mp holder).2
      have right := ((isHolder_one all _).mp holds.1).2
      exact Or.inl (own.2.trans (left.symm.trans right))
  | @taken reg _ _ _ own valid removes spared ousted lost =>
    by_cases same : r.ref = reg.ref
    · exact Or.inl (own.2.trans (congrArg some same.symm))
    · exact (lost r (ousted r known holds.1 same)).deprived
  | _ => exact absurd holds gone

end

/-! ### Runs -/

/-- A nexus sends a command, or a session comes or goes. -/
inductive Act where
  | command (env : Env) (t : TgtDev) (c : Cmd)
  | attach (t : TgtDev)
  | enlist (t : TgtDev)
  | delist (t : TgtDev)
  | discount (t : TgtDev)
  | detach (t : TgtDev)

inductive Does (d : Device) : Act → Device → Prop where
  | command {env : Env} {t : TgtDev} {c : Cmd} {out : Outcome} (inside : t ∈ d.tgtDevs) (active : t.listed = true)
      (served : scstPersistentReserveOutLocal env d t c = .ok out) : Does d (.command env t c) out.dev
  | attach {t : TgtDev} {d' : Device} (alone : ∀ x ∈ d.tgtDevs, x.listed = true)
      (fresh : t.id ∉ d.tgtDevs.map TgtDev.id) (full : ∀ tid, t.transportId = some tid → tid.Full)
      (bare : t.registrant = none) (off : t.listed = false) (attached : attach d t = some d') : Does d (.attach t) d'
  | enlist {t : TgtDev} (inside : t ∈ d.tgtDevs) (off : t.listed = false) : Does d (.enlist t) (enlist d t)
  | delist {t : TgtDev} (alone : ∀ x ∈ d.tgtDevs, x.listed = true) (inside : t ∈ d.tgtDevs) :
      Does d (.delist t) (delist d t)
  | discount {t : TgtDev} (inside : t ∈ d.tgtDevs) (off : t.listed = false) (bare : t.transportId = none) :
      Does d (.discount t) (discount d)
  | detach {t : TgtDev} {d' : Device} (inside : t ∈ d.tgtDevs) (off : t.listed = false)
      (cleared : scstPrClearTgtDev d t = .ok d') : Does d (.detach t) (free d' t)

def Step (d d' : Device) : Prop := ∃ a, Does d a d'

/-- A device that nobody is connected to yet. -/
def Device.Fresh (d : Device) : Prop := d.Safe ∧ d.tgtDevs = []

def Device.Reached (d : Device) : Prop := ∃ d₀ n, d₀.Fresh ∧ Run Step d₀ n d

theorem init_fresh (tas : Bool) : (scstPrInit tas).Fresh := by
  refine ⟨⟨⟨?_, ?_⟩, ?_⟩, rfl⟩
  · exact ⟨List.nodup_nil, fun r known => absurd known List.not_mem_nil, List.Pairwise.nil, List.nodup_nil,
      fun t inside => absurd inside List.not_mem_nil, fun t inside => absurd inside List.not_mem_nil,
      fun r known => absurd known List.not_mem_nil⟩
  · refine ⟨fun _ => ⟨rfl, rfl, rfl⟩, fun set => Bool.noConfusion set, fun p holds => ?_⟩
    cases holds
  · exact fun r known => absurd known List.not_mem_nil

theorem command_effect {env : Env} {d : Device} {t : TgtDev} {c : Cmd} {out : Outcome} (safe : d.Safe)
    (inside : t ∈ d.tgtDevs) (served : scstPersistentReserveOutLocal env d t c = .ok out) : Effect env d t c out := by
  have answers : Answers env d t c _ := reserveOut_answers safe.1 safe.2 inside
  rw [served] at answers
  cases answers with
  | served effect => exact effect

theorem does_safe {d d' : Device} {a : Act} (safe : d.Safe) (does : Does d a d') : d'.Safe := by
  cases does with
  | command inside active served => exact (command_effect safe inside served).safe safe
  | attach alone fresh full bare off attached =>
    unfold attach at attached
    split at attached
    · split at attached
      · cases attached
      · cases attached
        exact (safe.count _).initTgtDev fresh full bare
    · cases attached
      exact safe.initTgtDev fresh full bare
  | enlist inside off => exact safe.enlist _
  | delist alone inside => exact safe.delist _
  | discount inside off bare => exact safe.count _
  | detach inside off cleared =>
    obtain ⟨d'', cleared', safe', t', inside', same, bare⟩ := safe.clearTgtDev inside
    cases cleared.symm.trans cleared'
    have freed := safe'.free inside' bare
    unfold free at freed ⊢
    rw [← same]
    exact freed

theorem step_safe {d d' : Device} (safe : d.Safe) (step : Step d d') : d'.Safe := by
  obtain ⟨a, does⟩ := step
  exact does_safe safe does

theorem Device.Reached.safe {d : Device} (reached : d.Reached) : d.Safe := by
  obtain ⟨d₀, n, fresh, run⟩ := reached
  exact run.invariant (fun _ _ => step_safe) fresh.1

/-! ### Two ports, for the examples below -/

def portTid (n : UInt8) : TransportId := ⟨0 :: n :: List.replicate 22 0, by simp [scstTidSize, protocolIscsi, tidCommonSize]⟩

def portA : TgtDev := ⟨0, some (portTid 0), 1, none, true⟩

def portB : TgtDev := ⟨1, some (portTid 1), 1, none, true⟩

def ports : Device := { scstPrInit false with tgtDevs := [portA, portB] }

/-- Memory without end. -/
def plenty : Allocator where
  pick used := some (used.sum + 1)
  fresh := by
    intro used p picked inside
    have := List.single_le_sum (fun x _ => Nat.zero_le x) p inside
    cases picked
    omega

def quietEnv : Env := ⟨plenty, true, fun _ => true, [⟨0, 1, false⟩, ⟨0, 2, false⟩]⟩

/-- A parameter list with a key, an action key and the flags of byte 20. -/
def parameters (key actionKey flags : UInt8) : Buffer where
  mem i := if i = 0 then key else if i = 8 then actionKey else if i = 20 then flags else 0
  size := 24
  mapped := 4096
  inside := by decide
  page := by decide

def command (action cdb2 key actionKey flags : UInt8) : Cmd :=
  ⟨action, cdb2, parameters key actionKey flags, false, false⟩

theorem ports_reached : ports.Reached := by
  refine ⟨scstPrInit false, 4, init_fresh false, ?_⟩
  have attachA : Run Step (scstPrInit false) 1 { scstPrInit false with tgtDevs := [{ portA with listed := false }] } :=
    .step .refl ⟨_, .attach (t := { portA with listed := false }) (fun x inside => absurd inside List.not_mem_nil)
      List.not_mem_nil (fun tid own => by cases own; decide +kernel) rfl rfl rfl⟩
  have enlistA : Run Step (scstPrInit false) 2 { scstPrInit false with tgtDevs := [portA] } :=
    .step attachA ⟨_, .enlist (t := { portA with listed := false }) List.mem_cons_self rfl⟩
  have attachB : Run Step (scstPrInit false) 3
      { scstPrInit false with tgtDevs := [portA, { portB with listed := false }] } :=
    .step enlistA ⟨_, .attach (t := { portB with listed := false }) (by simp [portA]) (by decide)
      (fun tid own => by cases own; decide +kernel) rfl rfl rfl⟩
  exact .step attachB ⟨_, .enlist (t := { portB with listed := false }) (by simp) rfl⟩

def regA : Registrant := ⟨1, portTid 0, 1, 1, some 0, 0⟩

def regB : Registrant := ⟨2, portTid 1, 1, 2, some 1, 0⟩

def registeredA : TgtDev := { portA with registrant := some 1 }

def registeredB : TgtDev := { portB with registrant := some 2 }

/-- Port A has registered key 1 and port B key 2. -/
def registered : Device :=
  { ports with
    prGeneration := 2
    devRegistrantsList := [regA, regB]
    tgtDevs := [registeredA, registeredB] }

theorem registered_reached : registered.Reached := by
  obtain ⟨d₀, n, fresh, run⟩ := ports_reached
  refine ⟨d₀, n + 2, fresh, ?_⟩
  have first : scstPersistentReserveOutLocal quietEnv ports portA (command 0 0 0 1 0) = .ok
      ⟨{ ports with prGeneration := 1, devRegistrantsList := [regA], tgtDevs := [registeredA, portB] }, .good, []⟩ := by
    decide +kernel
  have second : scstPersistentReserveOutLocal quietEnv
      { ports with prGeneration := 1, devRegistrantsList := [regA], tgtDevs := [registeredA, portB] } portB
      (command 0 0 0 2 0) = .ok ⟨registered, .good, []⟩ := by
    decide +kernel
  exact .step (.step run ⟨_, .command (by simp [ports]) rfl first⟩) ⟨_, .command (by simp) rfl second⟩

/-- Port A has reserved the device for itself. -/
def held : Device := { registered with prIsSet := true, prHolder := some 1, prType := typeWriteExclusive }

theorem held_step : Step registered held := by
  have served : scstPersistentReserveOutLocal quietEnv registered registeredA (command 1 1 1 0 0) =
      .ok ⟨held, .good, []⟩ := by
    decide +kernel
  exact ⟨_, .command (by simp [registered]) rfl served⟩

theorem held_reached : held.Reached := by
  obtain ⟨d₀, n, fresh, run⟩ := registered_reached
  exact ⟨d₀, n + 1, fresh, .step run held_step⟩

/-- No pointer that leads nowhere is followed, by commands or by sessions that end, and what a command
sends goes to nexuses that are registered. The nexuses that registrants point to are in memory. -/
theorem pointers_lead {d : Device} (reached : d.Reached) {t : TgtDev} (inside : t ∈ d.tgtDevs) (env : Env) (c : Cmd) :
    (∀ fault, scstPersistentReserveOutLocal env d t c = .error fault → fault = .buffer) ∧
      (∀ out, scstPersistentReserveOutLocal env d t c = .ok out → ∀ e ∈ out.events,
        ∃ t' ∈ d.tgtDevs, t'.id = e.target ∧ t'.registrant ≠ none) ∧
      (∃ d', scstPrClearTgtDev d t = .ok d') ∧
      ∀ r ∈ d.devRegistrantsList, ∀ i, r.tgtDev = some i → ∃ t' ∈ d.tgtDevs, t'.id = i ∧ t'.registrant = some r.ref := by
  have safe := reached.safe
  refine ⟨fun fault stopped => ?_, fun out served e sent => ?_, ?_, fun r known i own => ?_⟩
  · have answers : Answers env d t c _ := reserveOut_answers safe.1 safe.2 inside
    rw [stopped] at answers
    cases answers with
    | overrun => rfl
  · obtain ⟨r, known, own⟩ := (command_effect safe inside served).addressed sent
    obtain ⟨t', inside', same, points, _⟩ := safe.1.registry.back r known _ own
    refine ⟨t', inside', same, ?_⟩
    rw [points]
    exact Option.some_ne_none _
  · obtain ⟨d', cleared, _⟩ := safe.clearTgtDev inside
    exact ⟨d', cleared⟩
  · obtain ⟨t', inside', same, points, _⟩ := safe.1.registry.back r known i own
    exact ⟨t', inside', same, points⟩

theorem pointers_lead_registered :
    ∃ d', scstPrClearTgtDev registered registeredA = .ok d' ∧
      ∀ out, scstPersistentReserveOutLocal quietEnv registered registeredA (command 4 1 1 2 0) = .ok out →
        ∀ e ∈ out.events, ∃ t' ∈ registered.tgtDevs, t'.id = e.target ∧ t'.registrant ≠ none := by
  obtain ⟨_, told, ⟨d', cleared⟩, _⟩ :=
    pointers_lead registered_reached (t := registeredA) List.mem_cons_self quietEnv (command 4 1 1 2 0)
  exact ⟨d', cleared, told⟩

/-- A command that fails leaves everything but the holder of a shared reservation, who may be
forgotten. -/
theorem failure_restores {d : Device} (reached : d.Reached) {t : TgtDev} (inside : t ∈ d.tgtDevs) {env : Env} {c : Cmd}
    {out : Outcome} (served : scstPersistentReserveOutLocal env d t c = .ok out) (failed : out.status ≠ .good) :
    Unchanged d out.dev ∧ out.events = [] :=
  (command_effect reached.safe inside served).unchanged failed

/-- Memory for one registrant. -/
def scarce : Allocator where
  pick used := if used = [] then some 1 else none
  fresh := by
    intro used p picked inside
    split at picked
    · rename_i empty
      rw [empty] at inside
      cases inside
    · cases picked

/-- Port A registers with both targets, and there is no memory for the second. -/
theorem failure_restores_scarce :
    ∃ out, scstPersistentReserveOutLocal { quietEnv with alloc := scarce } ports portA (command 0 0 0 1 4) = .ok out ∧
      out.status = .busy ∧ Unchanged ports out.dev := by
  have served : scstPersistentReserveOutLocal { quietEnv with alloc := scarce } ports portA (command 0 0 0 1 4) =
      .ok ⟨ports, .busy, []⟩ := by
    decide +kernel
  exact ⟨_, served, rfl, (failure_restores ports_reached List.mem_cons_self served Status.noConfusion).1⟩

/-- A nexus loses its registration by its own port, or to a registrant that sends CLEAR or PREEMPT, and
then it is told. -/
theorem registration_lost {d : Device} (reached : d.Reached) {t : TgtDev} (inside : t ∈ d.tgtDevs) {env : Env} {c : Cmd}
    {out : Outcome} (served : scstPersistentReserveOutLocal env d t c = .ok out) {r : Registrant}
    (known : r ∈ d.devRegistrantsList) (gone : ¬ out.dev.Has r) : Lost d t c out.events r :=
  ((command_effect reached.safe inside served).stays reached.safe known).resolve_left gone

theorem registration_lost_preempted :
    ∃ out, scstPersistentReserveOutLocal quietEnv registered registeredB (command 4 1 2 1 0) = .ok out ∧
      Lost registered registeredB (command 4 1 2 1 0) out.events regA := by
  have served : scstPersistentReserveOutLocal quietEnv registered registeredB (command 4 1 2 1 0) =
      .ok ⟨{ registered with prGeneration := 3, devRegistrantsList := [regB], tgtDevs := [portA, registeredB] }, .good,
        [.ua 0 .registrationsPreempted]⟩ := by
    decide +kernel
  refine ⟨_, served, registration_lost registered_reached (by simp [registered]) served List.mem_cons_self ?_⟩
  rintro ⟨r, known, same, _⟩
  rw [List.mem_singleton.mp known] at same
  exact absurd same (by decide)

/-! ### Sessions leave registrations and reservation alone -/

/-- What a session that comes or goes leaves. -/
structure Alike (d d' : Device) : Prop where
  generation : d'.prGeneration = d.prGeneration
  set : d'.prIsSet = d.prIsSet
  type : d'.prType = d.prType
  holder : d'.prHolder = d.prHolder
  registrations : d'.registrations = d.registrations

theorem Alike.tgtDevs (d : Device) (tgtDevs : List TgtDev) : Alike d { d with tgtDevs := tgtDevs } :=
  ⟨rfl, rfl, rfl, rfl, rfl⟩

theorem Alike.count (d : Device) (n : Nat) : Alike d { d with notPrSupportingTgtDevsNum := n } :=
  ⟨rfl, rfl, rfl, rfl, rfl⟩

theorem Alike.trans {d d' d'' : Device} (first : Alike d d') (next : Alike d' d'') : Alike d d'' :=
  ⟨next.generation.trans first.generation, next.set.trans first.set, next.type.trans first.type,
    next.holder.trans first.holder, next.registrations.trans first.registrations⟩

theorem registrations_assign (regs : List Registrant) (p : Nat) (t : Option Nat) :
    (regs.map (Registrant.assign p t)).map Registrant.registration = regs.map Registrant.registration := by
  simp [Function.comp_def, Registrant.registration]

theorem link_alike (d : Device) (i p : Nat) : Alike d (link d i p) :=
  ⟨rfl, rfl, rfl, rfl, registrations_assign _ _ _⟩

theorem unlink_alike (d : Device) (i p : Nat) : Alike d (unlink d i p) :=
  ⟨rfl, rfl, rfl, rfl, registrations_assign _ _ _⟩

theorem initTgtDev_alike (d : Device) (t : TgtDev) : Alike d (scstPrInitTgtDev d t) := by
  simp only [scstPrInitTgtDev]
  split
  · exact Alike.tgtDevs d _
  · split
    · exact Alike.tgtDevs d _
    · split
      · exact (Alike.tgtDevs d _).trans (link_alike _ _ _)
      · exact Alike.tgtDevs d _

theorem clearTgtDev_alike {d d' : Device} {t : TgtDev} (cleared : scstPrClearTgtDev d t = .ok d') : Alike d d' := by
  unfold scstPrClearTgtDev at cleared
  split at cleared
  · cases cleared
    exact Alike.tgtDevs d _
  · split at cleared
    · cases cleared
    · simp only at cleared
      split at cleared
      · cases cleared
        exact unlink_alike _ _ _
      · cases cleared
        exact (unlink_alike _ _ _).trans (link_alike _ _ _)

theorem does_cases {d d' : Device} {a : Act} (does : Does d a d') :
    Alike d d' ∨ ∃ env t c out, a = .command env t c ∧ t ∈ d.tgtDevs ∧
      scstPersistentReserveOutLocal env d t c = .ok out ∧ d' = out.dev := by
  cases does with
  | command inside active served => exact Or.inr ⟨_, _, _, _, rfl, inside, served, rfl⟩
  | attach alone fresh full bare off attached =>
    unfold attach at attached
    split at attached
    · split at attached
      · cases attached
      · cases attached
        exact Or.inl ((Alike.count d _).trans (initTgtDev_alike _ _))
    · cases attached
      exact Or.inl (initTgtDev_alike _ _)
  | enlist inside off => exact Or.inl (Alike.tgtDevs d _)
  | delist alone inside => exact Or.inl (Alike.tgtDevs d _)
  | discount inside off bare => exact Or.inl (Alike.count d _)
  | detach inside off cleared => exact Or.inl ((clearTgtDev_alike cleared).trans (Alike.tgtDevs _ _))

theorem Alike.has {d d' : Device} (alike : Alike d d') {r : Registrant} (has : d.Has r) : d'.Has r := by
  obtain ⟨r', known, ref, tid, rel⟩ := has
  have listed : r'.registration ∈ d'.registrations := by
    rw [alike.registrations]
    exact List.mem_map_of_mem known
  obtain ⟨r'', known', same⟩ := List.mem_map.mp listed
  have fields := Prod.mk.inj same
  have fields' := Prod.mk.inj fields.2
  exact ⟨r'', known', fields.1.trans ref, fields'.1.trans tid, (Prod.mk.inj fields'.2).1.trans rel⟩

/-- The act `a` is a command and took the reservation away from `r`. -/
def Deprives (d : Device) (a : Act) (d' : Device) (r : Registrant) (type : UInt8) : Prop :=
  (d.Has r ∧ d.Held r.ref type) ∧ ¬ (d'.Has r ∧ d'.Held r.ref type) ∧ ∃ env t c, a = .command env t c ∧
    ∃ r' ∈ d.devRegistrantsList, r'.ref = r.ref ∧ r'.transportId = r.transportId ∧ r'.relTgtId = r.relTgtId ∧
      Deprived d t c r'

theorem does_deprives {d d' : Device} {a : Act} (safe : d.Safe) (does : Does d a d') {r : Registrant} {type : UInt8}
    (before : d.Has r ∧ d.Held r.ref type) (after : ¬ (d'.Has r ∧ d'.Held r.ref type)) : Deprives d a d' r type := by
  refine ⟨before, after, ?_⟩
  obtain ⟨has, held⟩ := before
  rcases does_cases does with alike | ⟨env, t, c, out, sent, inside, served, rfl⟩
  · exact absurd ⟨alike.has has, held.congr alike.set alike.type alike.holder⟩ after
  · obtain ⟨r', known', ref, tid, rel⟩ := has
    have effect := command_effect safe inside served
    refine ⟨env, t, c, sent, r', known', ref, tid, rel, ?_⟩
    rcases effect.stays safe known' with ⟨r'', known'', ref', tid', rel'⟩ | lost
    · rw [← ref] at held after
      exact effect.deprived safe known' held fun still =>
        after ⟨⟨r'', known'', ref'.trans ref, tid'.trans tid, rel'.trans rel⟩, still⟩
    · exact lost.deprived

theorem trace_safe {n : Nat} {s : Nat → Device} {a : Nat → Act} (safe : (s 0).Safe) (trace : Trace Does n s a) :
    ∀ k ≤ n, (s k).Safe :=
  trace.invariant (fun _ _ _ safe does => does_safe safe does) safe

theorem deprived_within {n : Nat} {s : Nat → Device} {a : Nat → Act} (safe : (s 0).Safe) (trace : Trace Does n s a)
    {r : Registrant} (known : r ∈ (s 0).devRegistrantsList) {type : UInt8} (holds : (s 0).Held r.ref type)
    (gone : ¬ ((s n).Has r ∧ (s n).Held r.ref type)) : ∃ k < n, Deprives (s k) (a k) (s (k + 1)) r type := by
  obtain ⟨k, low, does, before, after⟩ :=
    trace.lost (P := fun x => x.Has r ∧ x.Held r.ref type) ⟨Device.Has.of_mem known, holds⟩ gone
  exact ⟨k, low, does_deprives (trace_safe safe trace k low.le) does before after⟩

/-- A reservation that `r` holds outlives the sessions. It ends or changes its type by a command from the
port of `r`, a CLEAR, a PREEMPT of `r`, or, if all registrants hold it, a command of one of them. -/
theorem reservation_lost {n : Nat} {s : Nat → Device} {a : Nat → Act} (reached : (s 0).Reached)
    (trace : Trace Does n s a) {r : Registrant} (known : r ∈ (s 0).devRegistrantsList) {type : UInt8}
    (holds : (s 0).Held r.ref type) (gone : ¬ ((s n).Has r ∧ (s n).Held r.ref type)) :
    ∃ k < n, Deprives (s k) (a k) (s (k + 1)) r type :=
  deprived_within reached.safe trace known holds gone

/-- Port A leaves, then port B preempts. -/
def preemption : Nat → Device
  | 0 => held
  | 1 => delist held registeredA
  | _ =>
    { held with
      prGeneration := 3
      prHolder := some 2
      prType := typeExclusiveAccess
      devRegistrantsList := [regB]
      tgtDevs := [{ portA with listed := false }, registeredB] }

def preemptionActs : Nat → Act
  | 0 => .delist registeredA
  | _ => .command quietEnv registeredB (command 4 3 2 1 0)

theorem reservation_lost_preempted :
    ∃ k < 2, Deprives (preemption k) (preemptionActs k) (preemption (k + 1)) regA typeWriteExclusive := by
  have served : scstPersistentReserveOutLocal quietEnv (preemption 1) registeredB (command 4 3 2 1 0) =
      .ok ⟨preemption 2, .good, [.ua 0 .registrationsPreempted]⟩ := by
    decide +kernel
  have trace : Trace Does 2 preemption preemptionActs := by
    intro k low
    obtain _ | _ | k := k
    · exact .delist (by simp [preemption, held, registered, registeredA, registeredB, portA, portB]) List.mem_cons_self
    · exact .command (by decide) rfl served
    · omega
  refine reservation_lost held_reached trace List.mem_cons_self ⟨by decide, rfl⟩ fun still => ?_
  exact absurd still.2.1 (by decide)

theorem generation_low (d : Device) : d.prGeneration.toNat < 2 ^ 32 := d.prGeneration.toNat_lt

theorem step_counts (d d' : Device) (safe : d.Safe) (step : Step d d') :
    (d'.prGeneration.toNat = d.prGeneration.toNat ∧ d'.registrations = d.registrations) ∨
      d'.prGeneration.toNat = (d.prGeneration.toNat + 1) % 2 ^ 32 := by
  obtain ⟨a, does⟩ := step
  rcases does_cases does with alike | ⟨env, t, c, out, _, inside, served, rfl⟩
  · exact Or.inl ⟨congrArg UInt32.toNat alike.generation, alike.registrations⟩
  · rcases (command_effect safe inside served).counts safe with ⟨same, viewed⟩ | next
    · exact Or.inl ⟨congrArg UInt32.toNat same, viewed⟩
    · rw [next, UInt32.toNat_add]
      exact Or.inr rfl

/-- Whoever reads the same generation twice, with less than `2 ^ 32` steps in between, has not missed a
change of the registrations. -/
theorem generation_tells {d d' : Device} (reached : d.Reached) {n : Nat} (run : Run Step d n d') (short : n < 2 ^ 32)
    (same : d'.prGeneration = d.prGeneration) : d'.registrations = d.registrations :=
  run.version (I := Device.Safe) (fun _ _ => step_safe) generation_low step_counts reached.safe short (congrArg UInt32.toNat same)

theorem generation_tells_reserve : held.registrations = registered.registrations :=
  generation_tells registered_reached (.step .refl held_step) (by decide) rfl

end Ldd3.Pres
