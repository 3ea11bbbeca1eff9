import Ldd3.Pres.Tid
import Mathlib.Data.List.Nodup
import Mathlib.Data.List.Pairwise

/-!
The persistent reservation of a device in `scst_pres.c`. Registrants are blocks of memory: `pr_holder`
and a `tgt_dev`'s `registrant` point to them by address, a registrant points back to the `tgt_dev` (the
nexus of an initiator port and a target port) that it belongs to, if that is connected.
-/

namespace Ldd3.Pres

abbrev Key := UInt64

def typeUnspecified : UInt8 := 0xff
def typeWriteExclusive : UInt8 := 0x01
def typeExclusiveAccess : UInt8 := 0x03
def typeWriteExclusiveRegonly : UInt8 := 0x05
def typeExclusiveAccessRegonly : UInt8 := 0x06
def typeWriteExclusiveAllReg : UInt8 := 0x07
def typeExclusiveAccessAllReg : UInt8 := 0x08

def scopeLu : UInt8 := 0x00

def scstPrTypeValid (type : UInt8) : Bool :=
  type == typeWriteExclusive || type == typeExclusiveAccess || type == typeWriteExclusiveRegonly ||
    type == typeExclusiveAccessRegonly || type == typeWriteExclusiveAllReg || type == typeExclusiveAccessAllReg

/-- The types whose reservation every registrant holds. -/
def allReg (type : UInt8) : Bool := type == typeExclusiveAccessAllReg || type == typeWriteExclusiveAllReg

structure Registrant where
  ref : Nat
  transportId : TransportId
  relTgtId : UInt16
  key : Key
  tgtDev : Option Nat
  rollbackKey : Key
  deriving DecidableEq

@[ext]
structure TgtDev where
  id : Nat
  transportId : Option TransportId
  relTgtId : UInt16
  registrant : Option Nat
  /-- Whether it is on `dev_tgt_dev_list`. -/
  listed : Bool
  deriving DecidableEq

structure Device where
  prGeneration : UInt32
  prIsSet : Bool
  prHolder : Option Nat
  prScope : UInt8
  prType : UInt8
  prAptpl : Bool
  devRegistrantsList : List Registrant
  tgtDevs : List TgtDev
  notPrSupportingTgtDevsNum : Nat
  tas : Bool
  deriving DecidableEq

def scstPrInit (tas : Bool) : Device := ⟨0, false, none, scopeLu, typeUnspecified, false, [], [], 0, tas⟩

/-- `kzalloc` and `kmemdup`: an address that is not in use, or none. -/
structure Allocator where
  pick : List Nat → Option Nat
  fresh : ∀ {used p}, pick used = some p → p ∉ used

/-! ### Reservation -/

def scstPrSetHolder (d : Device) (holder : Nat) (scope type : UInt8) : Device :=
  { d with prIsSet := true, prScope := scope, prType := type,
           prHolder := if allReg type then d.prHolder else some holder }

def scstPrIsHolder (d : Device) (reg : Option Nat) : Bool :=
  d.prIsSet && if allReg d.prType then reg.isSome else d.prHolder == reg

def scstPrClearReservation (d : Device) : Device :=
  { d with prIsSet := false, prScope := scopeLu, prType := typeUnspecified, prHolder := none }

def scstPrClearHolder (d : Device) : Device :=
  let cleared :=
    if allReg d.prType then
      if d.devRegistrantsList.isEmpty then scstPrClearReservation d else d
    else scstPrClearReservation d
  { cleared with prHolder := none }

/-! ### Registrants -/

def scstPrFindRegistrantsListAll (d : Device) (excludeReg : Registrant) : List Registrant :=
  d.devRegistrantsList.filter fun r => r.ref ≠ excludeReg.ref

def scstPrFindRegistrantsListKey (d : Device) (key : Key) : List Registrant :=
  d.devRegistrantsList.filter fun r => r.key = key

def Registrant.Matches (r : Registrant) (tid : Option TransportId) (rel : UInt16) : Prop :=
  r.relTgtId = rel ∧ tidEqual (some r.transportId) tid = true

instance (r : Registrant) (tid : Option TransportId) (rel : UInt16) : Decidable (r.Matches tid rel) :=
  inferInstanceAs (Decidable (_ ∧ _))

def scstPrFindReg (d : Device) (tid : Option TransportId) (rel : UInt16) : Option Registrant :=
  d.devRegistrantsList.find? fun r => decide (r.Matches tid rel)

/-- `t->registrant = reg` -/
def TgtDev.point (t : Option Nat) (reg : Option Nat) (x : TgtDev) : TgtDev :=
  if some x.id = t then { x with registrant := reg } else x

/-- The `tgt_dev` that a new registrant is given. -/
def unclaimed (tgtDevs : List TgtDev) (tid : TransportId) (rel : UInt16) : Option TgtDev :=
  tgtDevs.find? fun t =>
    t.listed && tidEqual t.transportId (some tid) && t.relTgtId == rel && t.registrant.isNone

def scstPrAddRegistrant (alloc : Allocator) (d : Device) (tid : TransportId) (rel : UInt16) (key : Key) :
    Option (Device × Nat) :=
  match scstPrFindReg d (some tid) rel with
  | some _ => none
  | none =>
    match alloc.pick (d.devRegistrantsList.map Registrant.ref) with
    | none => none
    | some p =>
      let t := (unclaimed d.tgtDevs tid rel).map TgtDev.id
      some ({ d with
        tgtDevs := d.tgtDevs.map (TgtDev.point t (some p))
        devRegistrantsList := d.devRegistrantsList ++ [⟨p, tid, rel, key, t, 0⟩] }, p)

def listDel (d : Device) (reg : Registrant) : Device :=
  { d with devRegistrantsList := d.devRegistrantsList.filter fun r => r.ref ≠ reg.ref }

def vacate (d : Device) (p : Nat) : Device :=
  if scstPrIsHolder d (some p) then scstPrClearHolder d else d

def scstPrRemoveRegistrant (d : Device) (reg : Registrant) : Device :=
  let free := vacate (listDel d reg) reg.ref
  { free with tgtDevs := free.tgtDevs.map (TgtDev.point reg.tgtDev none) }

/-! ### Invariants -/

/-- Registrants and nexuses point to each other. The transport identifiers of the nexuses are full. -/
structure Registry (regs : List Registrant) (tgtDevs : List TgtDev) : Prop where
  refs : (regs.map Registrant.ref).Nodup
  keys : ∀ r ∈ regs, r.key ≠ 0
  apart : regs.Pairwise fun r r' => ¬ r.Matches (some r'.transportId) r'.relTgtId
  ids : (tgtDevs.map TgtDev.id).Nodup
  full : ∀ t ∈ tgtDevs, ∀ tid, t.transportId = some tid → tid.Full
  linked : ∀ t ∈ tgtDevs, ∀ p, t.registrant = some p → ∃ r ∈ regs, r.ref = p ∧ r.tgtDev = some t.id
  back : ∀ r ∈ regs, ∀ i, r.tgtDev = some i →
    ∃ t ∈ tgtDevs, t.id = i ∧ t.registrant = some r.ref ∧ r.Matches t.transportId t.relTgtId

/-- A reservation that is set has a valid type and somebody who holds it. -/
structure Reserved (d : Device) : Prop where
  free : d.prIsSet = false → d.prHolder = none ∧ d.prType = typeUnspecified ∧ d.prScope = scopeLu
  held : d.prIsSet = true → scstPrTypeValid d.prType = true ∧ d.prScope = scopeLu ∧ d.devRegistrantsList ≠ [] ∧
    (allReg d.prType = false → d.prHolder ≠ none)
  holder : ∀ p, d.prHolder = some p → p ∈ d.devRegistrantsList.map Registrant.ref

structure Device.Ok (d : Device) : Prop where
  registry : Registry d.devRegistrantsList d.tgtDevs
  reserved : Reserved d

/-- No registration is under way. -/
def Device.Settled (d : Device) : Prop := ∀ r ∈ d.devRegistrantsList, r.rollbackKey = 0

/-! ### Pointing -/

@[simp] theorem point_id (t reg : Option Nat) (x : TgtDev) : (x.point t reg).id = x.id := by
  unfold TgtDev.point
  split <;> rfl

@[simp] theorem point_transportId (t reg : Option Nat) (x : TgtDev) :
    (x.point t reg).transportId = x.transportId := by
  unfold TgtDev.point
  split <;> rfl

@[simp] theorem point_relTgtId (t reg : Option Nat) (x : TgtDev) : (x.point t reg).relTgtId = x.relTgtId := by
  unfold TgtDev.point
  split <;> rfl

theorem point_at {t reg : Option Nat} {x : TgtDev} (here : some x.id = t) :
    x.point t reg = { x with registrant := reg } := if_pos here

theorem point_off {t reg : Option Nat} {x : TgtDev} (off : some x.id ≠ t) : x.point t reg = x := if_neg off

theorem ids_point (tgtDevs : List TgtDev) (t reg : Option Nat) :
    (tgtDevs.map (TgtDev.point t reg)).map TgtDev.id = tgtDevs.map TgtDev.id := by
  simp [Function.comp_def]

namespace Registry

variable {regs : List Registrant} {tgtDevs : List TgtDev}

theorem reg_eq (registry : Registry regs tgtDevs) {r r' : Registrant} (mem : r ∈ regs) (mem' : r' ∈ regs)
    (same : r.ref = r'.ref) : r = r' :=
  List.inj_on_of_nodup_map registry.refs mem mem' same

theorem tgtDev_eq (registry : Registry regs tgtDevs) {t t' : TgtDev} (mem : t ∈ tgtDevs) (mem' : t' ∈ tgtDevs)
    (same : t.id = t'.id) : t = t' :=
  List.inj_on_of_nodup_map registry.ids mem mem' same

theorem full_point (registry : Registry regs tgtDevs) (t reg : Option Nat) :
    ∀ x ∈ tgtDevs.map (TgtDev.point t reg), ∀ tid, x.transportId = some tid → tid.Full := by
  intro x mem tid has
  obtain ⟨y, inside, rfl⟩ := List.mem_map.mp mem
  rw [point_transportId] at has
  exact registry.full y inside tid has

theorem remove (registry : Registry regs tgtDevs) {reg : Registrant} (mem : reg ∈ regs) :
    Registry (regs.filter fun r => r.ref ≠ reg.ref) (tgtDevs.map (TgtDev.point reg.tgtDev none)) where
  refs := registry.refs.sublist (List.filter_sublist.map _)
  keys r kept := registry.keys r (List.mem_filter.mp kept).1
  apart := registry.apart.sublist List.filter_sublist
  ids := by
    rw [ids_point]
    exact registry.ids
  full := registry.full_point _ _
  linked x inside p points := by
    obtain ⟨y, before, rfl⟩ := List.mem_map.mp inside
    by_cases here : some y.id = reg.tgtDev
    · rw [point_at here] at points
      cases points
    · rw [point_off here] at points ⊢
      obtain ⟨r, known, ref, own⟩ := registry.linked y before p points
      refine ⟨r, List.mem_filter.mpr ⟨known, ?_⟩, ref, own⟩
      refine decide_eq_true fun same => here ?_
      rw [← registry.reg_eq known mem same, own]
  back r kept i own := by
    obtain ⟨known, other⟩ := List.mem_filter.mp kept
    obtain ⟨t, inside, rfl, points, fits⟩ := registry.back r known i own
    refine ⟨t.point reg.tgtDev none, List.mem_map_of_mem inside, point_id _ _ _, ?_, by simpa using fits⟩
    rw [point_off, points]
    intro here
    obtain ⟨t', inside', id', points', _⟩ := registry.back reg mem t.id here.symm
    rw [registry.tgtDev_eq inside' inside id', points] at points'
    exact of_decide_eq_true other (Option.some.inj points')

/-- A nexus that matches a registrant points to no other. -/
theorem unpointed (registry : Registry regs tgtDevs) {t : TgtDev} (inside : t ∈ tgtDevs) {reg : Registrant}
    (fits : reg.Matches t.transportId t.relTgtId)
    (alone : ∀ r ∈ regs, r.ref ≠ reg.ref → ¬ r.Matches (some reg.transportId) reg.relTgtId) {p : Nat}
    (points : t.registrant = some p) : p = reg.ref := by
  obtain ⟨r, known, rfl, own⟩ := registry.linked t inside p points
  by_contra other
  obtain ⟨t', inside', id', _, rel, same⟩ := registry.back r known t.id own
  rw [registry.tgtDev_eq inside' inside id'] at rel same
  refine alone r known other ⟨rel.trans fits.1.symm, ?_⟩
  have fits := fits.2
  cases tid : t.transportId with
  | none =>
    rw [tid] at same
    cases same
  | some full =>
    rw [tid] at same fits
    exact equal_trans (registry.full t inside full tid) same (equal_symm fits)

theorem alone (registry : Registry regs tgtDevs) {reg : Registrant} (mem : reg ∈ regs) :
    ∀ r ∈ regs, r.ref ≠ reg.ref → ¬ r.Matches (some reg.transportId) reg.relTgtId := by
  intro r known other
  have symmetric : Std.Symm fun r r' : Registrant => ¬ r.Matches (some r'.transportId) r'.relTgtId :=
    ⟨fun r r' apart fits => apart ⟨fits.1.symm, equal_symm fits.2⟩⟩
  exact registry.apart.forall known mem fun same => other (congrArg _ same)

theorem add (registry : Registry regs tgtDevs) {tid : TransportId} {rel : UInt16} {key : Key} {p : Nat}
    (fresh : p ∉ regs.map Registrant.ref) (valid : key ≠ 0)
    (absent : ∀ r ∈ regs, ¬ r.Matches (some tid) rel) {t : Option Nat}
    (chosen : t = (unclaimed tgtDevs tid rel).map TgtDev.id) :
    Registry (regs ++ [⟨p, tid, rel, key, t, 0⟩]) (tgtDevs.map (TgtDev.point t (some p))) where
  refs := by
    rw [List.map_append, List.map_singleton]
    exact List.nodup_append'.mpr ⟨registry.refs, List.nodup_singleton _, List.disjoint_singleton.mpr fresh⟩
  keys := by
    intro r mem
    rcases List.mem_append.mp mem with old | new
    · exact registry.keys r old
    · rw [List.mem_singleton.mp new]
      exact valid
  apart := by
    refine List.pairwise_append.mpr ⟨registry.apart, List.pairwise_singleton _ _, fun r old r' new => ?_⟩
    rw [List.mem_singleton.mp new]
    exact absent r old
  ids := by
    rw [ids_point]
    exact registry.ids
  full := registry.full_point _ _
  linked x inside q points := by
    obtain ⟨y, before, rfl⟩ := List.mem_map.mp inside
    by_cases here : some y.id = t
    · rw [point_at here] at points
      refine ⟨_, List.mem_append_right _ (List.mem_singleton_self _), Option.some.inj points, ?_⟩
      rw [point_id]
      exact here.symm
    · rw [point_off here] at points ⊢
      obtain ⟨r, known, ref, own⟩ := registry.linked y before q points
      exact ⟨r, List.mem_append_left _ known, ref, own⟩
  back r mem i own := by
    rcases List.mem_append.mp mem with old | new
    · obtain ⟨x, inside, rfl, points, fits⟩ := registry.back r old i own
      refine ⟨x.point t (some p), List.mem_map_of_mem inside, point_id _ _ _, ?_, by simpa using fits⟩
      rw [point_off, points]
      intro here
      rw [chosen] at here
      obtain ⟨y, found, same⟩ := Option.map_eq_some_iff.mp here.symm
      have free := List.find?_some found
      rw [registry.tgtDev_eq (List.mem_of_find?_eq_some found) inside same, points] at free
      simp at free
    · cases List.mem_singleton.mp new
      rw [chosen] at own
      obtain ⟨y, found, rfl⟩ := Option.map_eq_some_iff.mp own
      have inside := List.mem_of_find?_eq_some found
      have here : some y.id = t := by rw [chosen, found]; rfl
      refine ⟨y.point t (some p), List.mem_map_of_mem inside, point_id _ _ _, by rw [point_at here], ?_⟩
      have fits := List.find?_some found
      simp only [Bool.and_eq_true, beq_iff_eq] at fits
      rw [point_transportId, point_relTgtId]
      exact ⟨fits.1.2.symm, tidEqual_symm fits.1.1.2⟩

/-- What a change of keys leaves alone. -/
theorem rekey (registry : Registry regs tgtDevs) {f : Registrant → Registrant}
    (same : ∀ r, (f r).ref = r.ref ∧ (f r).transportId = r.transportId ∧ (f r).relTgtId = r.relTgtId ∧
      (f r).tgtDev = r.tgtDev)
    (keys : ∀ r ∈ regs, (f r).key ≠ 0) : Registry (regs.map f) tgtDevs where
  refs := by
    have refs : (regs.map f).map Registrant.ref = regs.map Registrant.ref := by
      rw [List.map_map]
      exact List.map_congr_left fun r _ => (same r).1
    rw [refs]
    exact registry.refs
  keys := by
    intro r mem
    obtain ⟨r, known, rfl⟩ := List.mem_map.mp mem
    exact keys r known
  apart := by
    refine List.pairwise_map.mpr (registry.apart.imp fun {r r'} apart => ?_)
    unfold Registrant.Matches at apart ⊢
    rw [(same r).2.1, (same r).2.2.1, (same r').2.1, (same r').2.2.1]
    exact apart
  ids := registry.ids
  full := registry.full
  linked t inside p points := by
    obtain ⟨r, known, ref, own⟩ := registry.linked t inside p points
    exact ⟨f r, List.mem_map_of_mem known, (same r).1.trans ref, (same r).2.2.2.trans own⟩
  back r mem i own := by
    obtain ⟨r, known, rfl⟩ := List.mem_map.mp mem
    obtain ⟨ref, tid, rel, tgtDev⟩ := same r
    obtain ⟨t, inside, id', points, fits⟩ := registry.back r known i (tgtDev ▸ own)
    refine ⟨t, inside, id', points.trans (congrArg some ref.symm), ?_⟩
    unfold Registrant.Matches at fits ⊢
    rw [tid, rel]
    exact fits

end Registry

/-! ### Operations keep the reservation -/

theorem isHolder_one {d : Device} (one : allReg d.prType = false) (p : Nat) :
    scstPrIsHolder d (some p) = true ↔ d.prIsSet = true ∧ d.prHolder = some p := by
  simp [scstPrIsHolder, one]

theorem isHolder_set {d : Device} {p : Option Nat} (holds : scstPrIsHolder d p = true) : d.prIsSet = true := by
  unfold scstPrIsHolder at holds
  exact (Bool.and_eq_true_iff.mp holds).1

theorem isHolder_congr {d d' : Device} (set : d'.prIsSet = d.prIsSet) (type : d'.prType = d.prType)
    (holder : d'.prHolder = d.prHolder) (p : Option Nat) : scstPrIsHolder d' p = scstPrIsHolder d p := by
  unfold scstPrIsHolder
  rw [set, type, holder]

theorem isHolder_all {d : Device} (all : allReg d.prType = true) (p : Nat) :
    scstPrIsHolder d (some p) = true ↔ d.prIsSet = true := by
  simp [scstPrIsHolder, all]

theorem findReg_none {d : Device} {tid : Option TransportId} {rel : UInt16} (none : scstPrFindReg d tid rel = none) :
    ∀ r ∈ d.devRegistrantsList, ¬ r.Matches tid rel := by
  intro r mem fits
  exact List.find?_eq_none.mp none r mem (decide_eq_true fits)

theorem findReg_some {d : Device} {tid : Option TransportId} {rel : UInt16} {r : Registrant}
    (found : scstPrFindReg d tid rel = some r) : r ∈ d.devRegistrantsList ∧ r.Matches tid rel := by
  unfold scstPrFindReg at found
  exact ⟨List.mem_of_find?_eq_some found, by simpa using List.find?_some found⟩

namespace Reserved

variable {d : Device}

theorem setHolder (reserved : Reserved d) {p : Nat} {type : UInt8} (live : p ∈ d.devRegistrantsList.map Registrant.ref)
    (valid : scstPrTypeValid type = true) : Reserved (scstPrSetHolder d p scopeLu type) where
  free := by
    intro unset
    cases unset
  held _ := by
    refine ⟨valid, rfl, ?_, fun single => ?_⟩
    · rintro (empty : d.devRegistrantsList = [])
      rw [empty] at live
      cases live
    · change (if allReg type then d.prHolder else some p) ≠ none
      change allReg type = false at single
      simp [single]
  holder q holds := by
    change (if allReg type then d.prHolder else some p) = some q at holds
    by_cases every : allReg type = true
    · rw [if_pos every] at holds
      exact reserved.holder q holds
    · rw [if_neg every] at holds
      exact Option.some.inj holds ▸ live

theorem cleared (d : Device) : Reserved (scstPrClearReservation d) where
  free _ := ⟨rfl, rfl, rfl⟩
  held set := by cases set
  holder p holds := by cases holds

theorem mono (reserved : Reserved d) {regs : List Registrant}
    (keeps : d.devRegistrantsList.map Registrant.ref ⊆ regs.map Registrant.ref) :
    Reserved { d with devRegistrantsList := regs } where
  free := reserved.free
  held set := by
    obtain ⟨valid, scope, some, single⟩ := reserved.held set
    refine ⟨valid, scope, ?_, single⟩
    rintro rfl
    exact some (List.map_eq_nil_iff.mp (List.subset_nil.mp keeps))
  holder p holds := keeps (reserved.holder p holds)

end Reserved

/-- A registrant that is gone leaves the reservation as it is, leaves a shared one to the others, or
ends it. -/
theorem vacate_cases (d : Device) (p : Nat) :
    (vacate d p = d ∧ (d.prIsSet = false ∨ allReg d.prType = false ∧ d.prHolder ≠ some p)) ∨
      (vacate d p = { d with prHolder := none } ∧ d.prIsSet = true ∧ allReg d.prType = true ∧
        d.devRegistrantsList ≠ []) ∨
      (vacate d p = scstPrClearReservation d ∧ d.prIsSet = true ∧
        (allReg d.prType = true ∧ d.devRegistrantsList = [] ∨ allReg d.prType = false ∧ d.prHolder = some p)) := by
  unfold vacate scstPrIsHolder scstPrClearHolder
  cases set : d.prIsSet with
  | false => exact Or.inl ⟨by simp, Or.inl rfl⟩
  | true =>
    cases all : allReg d.prType with
    | true =>
      cases regs : d.devRegistrantsList with
      | nil => exact Or.inr (Or.inr ⟨by simp [regs, scstPrClearReservation], rfl, Or.inl ⟨rfl, rfl⟩⟩)
      | cons r rest => exact Or.inr (Or.inl ⟨by simp [regs, set], rfl, rfl, List.cons_ne_nil r rest⟩)
    | false =>
      by_cases holds : d.prHolder = some p
      · exact Or.inr (Or.inr ⟨by simp [holds, scstPrClearReservation], rfl, Or.inr ⟨rfl, holds⟩⟩)
      · exact Or.inl ⟨by simp [holds], Or.inr ⟨rfl, holds⟩⟩

theorem vacate_regs (d : Device) (p : Nat) : (vacate d p).devRegistrantsList = d.devRegistrantsList := by
  rcases vacate_cases d p with ⟨same, _⟩ | ⟨same, _⟩ | ⟨same, _⟩ <;> rw [same]
  rfl

theorem vacate_tgtDevs (d : Device) (p : Nat) : (vacate d p).tgtDevs = d.tgtDevs := by
  rcases vacate_cases d p with ⟨same, _⟩ | ⟨same, _⟩ | ⟨same, _⟩ <;> rw [same]
  rfl

@[simp] theorem remove_regs (d : Device) (reg : Registrant) :
    (scstPrRemoveRegistrant d reg).devRegistrantsList = d.devRegistrantsList.filter fun r => r.ref ≠ reg.ref :=
  vacate_regs _ _

@[simp] theorem remove_tgtDevs (d : Device) (reg : Registrant) :
    (scstPrRemoveRegistrant d reg).tgtDevs = d.tgtDevs.map (TgtDev.point reg.tgtDev none) :=
  congrArg _ (vacate_tgtDevs _ _)

theorem remove_frame (d : Device) (reg : Registrant) :
    (scstPrRemoveRegistrant d reg).prGeneration = d.prGeneration ∧ (scstPrRemoveRegistrant d reg).prAptpl = d.prAptpl ∧
      (scstPrRemoveRegistrant d reg).tas = d.tas := by
  unfold scstPrRemoveRegistrant
  rcases vacate_cases (listDel d reg) reg.ref with ⟨same, _⟩ | ⟨same, _⟩ | ⟨same, _⟩ <;> rw [same]
  · exact ⟨rfl, rfl, rfl⟩
  · exact ⟨rfl, rfl, rfl⟩
  · exact ⟨rfl, rfl, rfl⟩

namespace Reserved

theorem listDel {d : Device} (reserved : Reserved d) {reg : Registrant} (other : d.prHolder ≠ some reg.ref) {p : Nat}
    (holds : d.prHolder = some p) : p ∈ (listDel d reg).devRegistrantsList.map Registrant.ref := by
  obtain ⟨r, known, rfl⟩ := List.mem_map.mp (reserved.holder p holds)
  exact List.mem_map_of_mem (List.mem_filter.mpr ⟨known, decide_eq_true fun same => other (same ▸ holds)⟩)

theorem remove {d : Device} (reserved : Reserved d) (reg : Registrant) : Reserved (scstPrRemoveRegistrant d reg) := by
  suffices kept : Reserved (vacate (Pres.listDel d reg) reg.ref) from ⟨kept.free, kept.held, kept.holder⟩
  rcases vacate_cases (Pres.listDel d reg) reg.ref with ⟨same, kept⟩ | ⟨same, set, all, some⟩ | ⟨same, _⟩
  · rw [same]
    rcases kept with unset | ⟨one, other⟩
    · have free := reserved.free unset
      refine ⟨fun _ => free, fun set => ?_, fun p holds => ?_⟩
      · exact absurd (set.symm.trans unset) Bool.noConfusion
      · exact absurd (free.1.symm.trans holds) (Option.some_ne_none p).symm
    · refine ⟨reserved.free, fun set => ?_, fun p holds => reserved.listDel other holds⟩
      obtain ⟨valid, scope, _, single⟩ := reserved.held set
      obtain ⟨p, holds⟩ := Option.ne_none_iff_exists'.mp (single one)
      refine ⟨valid, scope, fun empty => ?_, single⟩
      have live := reserved.listDel other holds
      rw [empty] at live
      cases live
  · rw [same]
    obtain ⟨valid, scope, _⟩ := reserved.held set
    refine ⟨fun unset => ?_, fun _ => ⟨valid, scope, some, fun one => ?_⟩, fun p holds => by cases holds⟩
    · exact absurd (set.symm.trans unset) Bool.noConfusion
    · exact absurd (all.symm.trans one) Bool.noConfusion
  · rw [same]
    exact cleared _

end Reserved

theorem add_inv {alloc : Allocator} {d d' : Device} {tid : TransportId} {rel : UInt16} {key : Key} {p : Nat}
    (added : scstPrAddRegistrant alloc d tid rel key = some (d', p)) :
    (∀ r ∈ d.devRegistrantsList, ¬ r.Matches (some tid) rel) ∧ p ∉ d.devRegistrantsList.map Registrant.ref ∧
      ∃ t, t = (unclaimed d.tgtDevs tid rel).map TgtDev.id ∧
        d' = { d with
          tgtDevs := d.tgtDevs.map (TgtDev.point t (some p))
          devRegistrantsList := d.devRegistrantsList ++ [⟨p, tid, rel, key, t, 0⟩] } := by
  unfold scstPrAddRegistrant at added
  cases found : scstPrFindReg d (some tid) rel with
  | some r =>
    rw [found] at added
    cases added
  | none =>
    rw [found] at added
    cases picked : alloc.pick (d.devRegistrantsList.map Registrant.ref) with
    | none =>
      rw [picked] at added
      cases added
    | some q =>
      rw [picked] at added
      cases added
      exact ⟨findReg_none found, alloc.fresh picked, _, rfl, rfl⟩

namespace Device.Ok

variable {d : Device}

theorem remove (ok : d.Ok) {reg : Registrant} (mem : reg ∈ d.devRegistrantsList) :
    (scstPrRemoveRegistrant d reg).Ok := by
  refine ⟨?_, ok.reserved.remove reg⟩
  rw [remove_regs, remove_tgtDevs]
  exact ok.registry.remove mem

theorem add (ok : d.Ok) {alloc : Allocator} {d' : Device} {tid : TransportId} {rel : UInt16} {key : Key} {p : Nat}
    (valid : key ≠ 0) (added : scstPrAddRegistrant alloc d tid rel key = some (d', p)) : d'.Ok := by
  obtain ⟨absent, fresh, t, chosen, rfl⟩ := add_inv added
  have keeps : d.devRegistrantsList.map Registrant.ref ⊆
      (d.devRegistrantsList ++ [Registrant.mk p tid rel key t 0]).map Registrant.ref := by
    rw [List.map_append]
    exact List.subset_append_left _ _
  have reserved := ok.reserved.mono keeps
  exact ⟨ok.registry.add fresh valid absent chosen, reserved.free, reserved.held, reserved.holder⟩

theorem rekey (ok : d.Ok) {f : Registrant → Registrant}
    (same : ∀ r, (f r).ref = r.ref ∧ (f r).transportId = r.transportId ∧ (f r).relTgtId = r.relTgtId ∧
      (f r).tgtDev = r.tgtDev)
    (keys : ∀ r ∈ d.devRegistrantsList, (f r).key ≠ 0) :
    { d with devRegistrantsList := d.devRegistrantsList.map f }.Ok := by
  refine ⟨ok.registry.rekey same keys, ok.reserved.mono ?_⟩
  rw [List.map_map]
  intro p mem
  obtain ⟨r, known, rfl⟩ := List.mem_map.mp mem
  exact List.mem_map.mpr ⟨r, known, (same r).1⟩

end Device.Ok

end Ldd3.Pres
