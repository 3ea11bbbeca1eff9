import Ldd3.Pres.Commands

/-!
A REGISTER that fails half way. `__scst_pr_register` keeps a list of what it has added and of the keys
it has changed, and takes both back one by one. What is on the list says how to get back to the device
before, and each step of the rollback shortens the way. The registrant that a nexus points to follows
from the registrants, so the nexuses are back when the registrants are.
-/

namespace Ldd3.Pres

theorem reg_mem {d : Device} {p : Nat} {r : Registrant} (found : d.reg p = some r) :
    r ∈ d.devRegistrantsList ∧ r.ref = p := by
  unfold Device.reg at found
  exact ⟨List.mem_of_find?_eq_some found, by simpa using List.find?_some found⟩

theorem reg_of_mem {d : Device} {p : Nat} (live : p ∈ d.devRegistrantsList.map Registrant.ref) :
    ∃ r, d.reg p = some r := by
  obtain ⟨r, mem, rfl⟩ := List.mem_map.mp live
  cases found : d.reg r.ref with
  | some r' => exact ⟨r', rfl⟩
  | none =>
    have absent := List.find?_eq_none.mp found r mem
    simp at absent

/-! ### What a nexus points to -/

def TgtDev.strip (t : TgtDev) : TgtDev := { t with registrant := none }

@[simp] theorem strip_point (t reg : Option Nat) (x : TgtDev) : (x.point t reg).strip = x.strip := by
  unfold TgtDev.point
  split <;> rfl

theorem strip_map_point (tgtDevs : List TgtDev) (t reg : Option Nat) :
    (tgtDevs.map (TgtDev.point t reg)).map TgtDev.strip = tgtDevs.map TgtDev.strip := by
  simp [Function.comp_def]

theorem Registry.registrant_iff {regs : List Registrant} {tgtDevs : List TgtDev} (registry : Registry regs tgtDevs)
    {t : TgtDev} (inside : t ∈ tgtDevs) {p : Nat} :
    t.registrant = some p ↔ ∃ r ∈ regs, r.ref = p ∧ r.tgtDev = some t.id := by
  constructor
  · exact registry.linked t inside p
  · rintro ⟨r, mem, rfl, own⟩
    obtain ⟨t', inside', id', points, _⟩ := registry.back r mem t.id own
    rw [registry.tgtDev_eq inside' inside id'] at points
    exact points

theorem Registry.tgtDevs_eq {regs : List Registrant} {tgtDevs tgtDevs' : List TgtDev}
    (registry : Registry regs tgtDevs) (registry' : Registry regs tgtDevs')
    (same : tgtDevs.map TgtDev.strip = tgtDevs'.map TgtDev.strip) : tgtDevs = tgtDevs' := by
  have length : tgtDevs.length = tgtDevs'.length := by simpa using congrArg List.length same
  refine List.ext_getElem length fun i low low' => ?_
  have stripped : tgtDevs[i].strip = tgtDevs'[i].strip := by
    have := congrArg (fun l => l[i]?) same
    simpa [low, low'] using this
  have fields := TgtDev.mk.inj stripped
  have registrant : tgtDevs[i].registrant = tgtDevs'[i].registrant := by
    apply Option.ext
    intro p
    rw [registry.registrant_iff (List.getElem_mem low), registry'.registrant_iff (List.getElem_mem low'), fields.1]
  exact TgtDev.ext fields.1 fields.2.1 fields.2.2.1 registrant fields.2.2.2.2

/-- Removing a registrant that the reservation can do without. -/
theorem remove_spared {d : Device} {reg : Registrant}
    (others : d.prIsSet = true → (listDel d reg).devRegistrantsList ≠ []) (other : d.prHolder ≠ some reg.ref) :
    (scstPrRemoveRegistrant d reg = { listDel d reg with tgtDevs := d.tgtDevs.map (TgtDev.point reg.tgtDev none) }) ∨
      (scstPrRemoveRegistrant d reg =
          { listDel d reg with tgtDevs := d.tgtDevs.map (TgtDev.point reg.tgtDev none), prHolder := none } ∧
        d.prIsSet = true ∧ allReg d.prType = true) := by
  unfold scstPrRemoveRegistrant
  rcases vacate_cases (listDel d reg) reg.ref with ⟨same, _⟩ | ⟨same, set, all, _⟩ | ⟨_, set, ended⟩
  · rw [same]
    exact Or.inl rfl
  · rw [same]
    exact Or.inr ⟨rfl, set, all⟩
  · rcases ended with ⟨_, empty⟩ | ⟨_, holds⟩
    · exact absurd empty (others set)
    · exact absurd holds other

/-! ### The way back -/

/-- What the rollback makes of a registrant. -/
def undo (list : List Nat) (r : Registrant) : Option Registrant :=
  if r.ref ∈ list then
    if r.rollbackKey = 0 then none else some { r with key := r.rollbackKey, rollbackKey := 0 }
  else some r

theorem undo_nil : undo [] = some := funext fun _ => if_neg List.not_mem_nil

/-- The rollback of `list` leads from `d` to `d₀`. -/
structure Undoing (d₀ d : Device) (list : List Nat) : Prop where
  ok : d.Ok
  frame : d = { d₀ with devRegistrantsList := d.devRegistrantsList, tgtDevs := d.tgtDevs, prHolder := d.prHolder }
  holder : d.prHolder = d₀.prHolder ∨ (d₀.prIsSet = true ∧ allReg d₀.prType = true ∧ d.prHolder = none)
  live : ∀ p ∈ list, p ∈ d.devRegistrantsList.map Registrant.ref
  once : list.Nodup
  quiet : ∀ r ∈ d.devRegistrantsList, r.ref ∉ list → r.rollbackKey = 0
  undone : d.devRegistrantsList.filterMap (undo list) = d₀.devRegistrantsList
  shape : d.tgtDevs.map TgtDev.strip = d₀.tgtDevs.map TgtDev.strip

namespace Undoing

variable {d₀ d : Device} {p : Nat} {list : List Nat} {reg : Registrant}

theorem fields (undoing : Undoing d₀ d list) :
    d.prGeneration = d₀.prGeneration ∧ d.prIsSet = d₀.prIsSet ∧ d.prType = d₀.prType := by
  rw [undoing.frame]
  exact ⟨rfl, rfl, rfl⟩

/-- A registrant that is to be removed was not there before. -/
theorem absent (undoing : Undoing d₀ d list) (mem : reg ∈ d.devRegistrantsList) (listed : reg.ref ∈ list)
    (added : reg.rollbackKey = 0) : reg.ref ∉ d₀.devRegistrantsList.map Registrant.ref := by
  rw [← undoing.undone]
  intro live
  obtain ⟨r', mem', same⟩ := List.mem_map.mp live
  obtain ⟨r, inside, result⟩ := List.mem_filterMap.mp mem'
  unfold undo at result
  by_cases here : r.ref ∈ list
  · rw [if_pos here] at result
    by_cases zero : r.rollbackKey = 0
    · rw [if_pos zero] at result
      cases result
    · rw [if_neg zero] at result
      cases result
      rw [undoing.ok.registry.reg_eq inside mem same] at zero
      exact zero added
  · rw [if_neg here] at result
    cases result
    rw [undoing.ok.registry.reg_eq inside mem same] at here
    exact here listed

theorem spared (before : Reserved d₀) (undoing : Undoing d₀ d list) (mem : reg ∈ d.devRegistrantsList)
    (listed : reg.ref ∈ list) (added : reg.rollbackKey = 0) :
    (d.prIsSet = true → (listDel d reg).devRegistrantsList ≠ []) ∧ d.prHolder ≠ some reg.ref := by
  have gone := undoing.absent mem listed added
  constructor
  · intro set empty
    have set₀ : d₀.prIsSet = true := by
      rw [undoing.frame] at set
      exact set
    obtain ⟨r, rest, before⟩ := List.exists_cons_of_ne_nil (before.held set₀).2.2.1
    have kept : r ∈ d.devRegistrantsList.filterMap (undo list) := by
      rw [undoing.undone, before]
      exact List.mem_cons_self
    obtain ⟨r', inside, result⟩ := List.mem_filterMap.mp kept
    have same : r'.ref = reg.ref := by
      by_contra other
      have left : r' ∈ (listDel d reg).devRegistrantsList := List.mem_filter.mpr ⟨inside, decide_eq_true other⟩
      rw [empty] at left
      cases left
    rw [undoing.ok.registry.reg_eq inside mem same] at result
    simp [undo, listed, added] at result
  · intro holds
    rcases undoing.holder with same | ⟨_, _, none⟩
    · exact gone (before.holder _ (same ▸ holds))
    · rw [none] at holds
      cases holds

theorem removal (before : Reserved d₀) (undoing : Undoing d₀ d (reg.ref :: list)) (mem : reg ∈ d.devRegistrantsList)
    (added : reg.rollbackKey = 0) :
    (scstPrRemoveRegistrant d reg = { listDel d reg with tgtDevs := d.tgtDevs.map (TgtDev.point reg.tgtDev none) }) ∨
      (scstPrRemoveRegistrant d reg =
          { listDel d reg with tgtDevs := d.tgtDevs.map (TgtDev.point reg.tgtDev none), prHolder := none } ∧
        d₀.prIsSet = true ∧ allReg d₀.prType = true) := by
  obtain ⟨others, other⟩ := undoing.spared before mem List.mem_cons_self added
  rcases remove_spared others other with same | ⟨same, set, all⟩
  · exact Or.inl same
  · rw [undoing.frame] at set all
    exact Or.inr ⟨same, set, all⟩

theorem remove (before : Reserved d₀) (undoing : Undoing d₀ d (reg.ref :: list)) (mem : reg ∈ d.devRegistrantsList)
    (added : reg.rollbackKey = 0) : Undoing d₀ (scstPrRemoveRegistrant d reg) list where
  ok := undoing.ok.remove mem
  frame := by
    rcases undoing.removal before mem added with same | ⟨same, _⟩
    · rw [same]
      nth_rewrite 1 [undoing.frame]
      rfl
    · rw [same]
      nth_rewrite 1 [undoing.frame]
      rfl
  holder := by
    rcases undoing.removal before mem added with same | ⟨same, set, all⟩
    · rw [same]
      exact undoing.holder
    · rw [same]
      exact Or.inr ⟨set, all, rfl⟩
  live := by
    intro q inside
    obtain ⟨r, known, rfl⟩ := List.mem_map.mp (undoing.live q (List.mem_cons_of_mem _ inside))
    rw [remove_regs]
    refine List.mem_map_of_mem (List.mem_filter.mpr ⟨known, decide_eq_true fun same => ?_⟩)
    exact (List.nodup_cons.mp undoing.once).1 (same ▸ inside)
  once := (List.nodup_cons.mp undoing.once).2
  quiet := by
    intro r known outside
    rw [remove_regs] at known
    obtain ⟨known, other⟩ := List.mem_filter.mp known
    refine undoing.quiet r known fun inside => ?_
    rcases List.mem_cons.mp inside with same | inside
    · exact of_decide_eq_true other same
    · exact outside inside
  undone := by
    rw [remove_regs, List.filterMap_filter, ← undoing.undone]
    refine List.filterMap_congr fun r known => ?_
    by_cases same : r.ref = reg.ref
    · have this := undoing.ok.registry.reg_eq known mem same
      simp [undo, this, added]
    · simp [undo, same]
  shape := by
    rw [remove_tgtDevs, strip_map_point]
    exact undoing.shape

theorem restore (undoing : Undoing d₀ d (reg.ref :: list)) (mem : reg ∈ d.devRegistrantsList)
    (changed : reg.rollbackKey ≠ 0) :
    Undoing d₀ { d with devRegistrantsList := d.devRegistrantsList.map (restoreKey reg.ref) } list where
  ok := by
    refine undoing.ok.rekey (fun r => ?_) fun r known => ?_
    · unfold restoreKey
      split <;> exact ⟨rfl, rfl, rfl, rfl⟩
    · unfold restoreKey
      by_cases same : r.ref = reg.ref
      · rw [if_pos same, undoing.ok.registry.reg_eq known mem same]
        exact changed
      · rw [if_neg same]
        exact undoing.ok.registry.keys r known
  frame := by
    conv_lhs => rw [undoing.frame]
  holder := undoing.holder
  live := by
    intro q inside
    obtain ⟨r, known, rfl⟩ := List.mem_map.mp (undoing.live q (List.mem_cons_of_mem _ inside))
    refine List.mem_map.mpr ⟨restoreKey reg.ref r, List.mem_map_of_mem known, ?_⟩
    unfold restoreKey
    split <;> rfl
  once := (List.nodup_cons.mp undoing.once).2
  quiet := by
    intro r' mem' outside
    obtain ⟨r, known, rfl⟩ := List.mem_map.mp mem'
    unfold restoreKey at outside ⊢
    by_cases same : r.ref = reg.ref
    · rw [if_pos same]
    · rw [if_neg same] at outside ⊢
      exact undoing.quiet r known fun inside => (List.mem_cons.mp inside).elim same outside
  undone := by
    rw [List.filterMap_map, ← undoing.undone]
    refine List.filterMap_congr fun r known => ?_
    by_cases same : r.ref = reg.ref
    · have fresh := (List.nodup_cons.mp undoing.once).1
      rw [undoing.ok.registry.reg_eq known mem same]
      simp [undo, restoreKey, changed, fresh]
    · simp [undo, restoreKey, same]
  shape := undoing.shape

end Undoing

theorem rollback_ok {d₀ : Device} (before : Reserved d₀) {list : List Nat} {d : Device} (undoing : Undoing d₀ d list) :
    ∃ d', rollback d list = .ok d' ∧ Undoing d₀ d' [] := by
  induction list generalizing d with
  | nil => exact ⟨d, rfl, undoing⟩
  | cons p list ih =>
    obtain ⟨reg, found⟩ := reg_of_mem (undoing.live p List.mem_cons_self)
    obtain ⟨mem, rfl⟩ := reg_mem found
    rw [rollback, found]
    by_cases added : reg.rollbackKey = 0
    · simp only [if_pos added]
      exact ih (undoing.remove before mem added)
    · simp only [if_neg added]
      exact ih (undoing.restore mem added)

/-- A rollback that is through has restored everything but the holder of a shared reservation. -/
theorem Undoing.restored {d₀ d : Device} (ok : d₀.Ok) (undoing : Undoing d₀ d []) :
    d = { d₀ with prHolder := d.prHolder } := by
  have regs : d.devRegistrantsList = d₀.devRegistrantsList := by
    rw [← undoing.undone, undo_nil, List.filterMap_some]
  have tgtDevs : d.tgtDevs = d₀.tgtDevs := by
    refine Registry.tgtDevs_eq undoing.ok.registry ?_ undoing.shape
    rw [regs]
    exact ok.registry
  have frame := undoing.frame
  rw [regs, tgtDevs] at frame
  exact frame

/-! ### What registering adds up to -/

/-- Registrants are added and keys changed, each of them noted. -/
inductive Registers (alloc : Allocator) (key : Key) (w : Work) : Work → Prop where
  | refl : Registers alloc key w w
  | add {w' : Work} {d : Device} {p : Nat} {tid : TransportId} {rel : UInt16} (before : Registers alloc key w w')
      (added : scstPrAddRegistrant alloc w'.dev tid rel key = some (d, p)) :
      Registers alloc key w ⟨d, w'.rollback ++ [p]⟩
  | change {w' : Work} {reg : Registrant} (before : Registers alloc key w w') (mem : reg ∈ w'.dev.devRegistrantsList)
      (other : reg.key ≠ key) :
      Registers alloc key w
        ⟨{ w'.dev with devRegistrantsList := w'.dev.devRegistrantsList.map (changeKey reg.ref key) },
          w'.rollback ++ [reg.ref]⟩

theorem Registers.trans {alloc : Allocator} {key : Key} {w w' w'' : Work} (first : Registers alloc key w w')
    (then' : Registers alloc key w' w'') : Registers alloc key w w'' := by
  induction then' with
  | refl => exact first
  | add _ added ih => exact ih.add added
  | change _ mem other ih => exact ih.change mem other

/-- Registering that is through, or was stopped by an error. -/
def Tried (alloc : Allocator) (key : Key) (w : Work) : Except (Status × Work) Work → Prop
  | .ok w' => Registers alloc key w w'
  | .error (status, w') => status ≠ .good ∧ Registers alloc key w w'

/-- Registering that may run out of the memory of the parameter list. -/
def Attempted (alloc : Allocator) (key : Key) (w : Work) : Except Fault (Except (Status × Work) Work) → Prop
  | .ok result => Tried alloc key w result
  | .error fault => fault = .buffer

section

variable {env : Env} {key : Key} {w w' : Work}

theorem Tried.after {result : Except (Status × Work) Work} (first : Registers env.alloc key w w')
    (tried : Tried env.alloc key w' result) : Tried env.alloc key w result := by
  cases result with
  | ok last => exact first.trans tried
  | error stopped => exact ⟨tried.1, first.trans tried.2⟩

theorem Attempted.after {result : Except Fault (Except (Status × Work) Work)} (first : Registers env.alloc key w w')
    (attempted : Attempted env.alloc key w' result) : Attempted env.alloc key w result := by
  cases result with
  | ok result => exact Tried.after first attempted
  | error fault => exact attempted

theorem registerTid_tried (rel : UInt16) (tid : TransportId) :
    Tried env.alloc key w (registerTid env key rel w tid) := by
  unfold registerTid
  cases found : scstPrFindReg w.dev (some tid) rel with
  | none =>
    cases added : scstPrAddRegistrant env.alloc w.dev tid rel key with
    | none => exact ⟨Status.noConfusion, .refl⟩
    | some result => exact Registers.refl.add added
  | some reg =>
    by_cases same : reg.key = key
    · simp only [if_pos same]
      exact .refl
    · simp only [if_neg same]
      exact Registers.refl.change (findReg_some found).1 same

theorem registerTid_each (rel : UInt16) (tids : List TransportId) :
    Tried env.alloc key w (tids.foldlM (registerTid env key rel) w) := by
  induction tids generalizing w with
  | nil => exact .refl
  | cons tid tids ih =>
    have tried : Tried env.alloc key w (registerTid env key rel w tid) := registerTid_tried rel tid
    rw [List.foldlM_cons]
    cases first : registerTid env key rel w tid with
    | error stopped =>
      rw [first] at tried
      exact tried
    | ok w' =>
      rw [first] at tried
      exact Tried.after tried ih

theorem registerTids_tried (rel : UInt16) (tids : List TransportId) :
    Tried env.alloc key w (registerTids env key rel w tids) := by
  induction tids generalizing w with
  | nil => exact .refl
  | cons tid tids ih =>
    have tried : Tried env.alloc key w _ := registerTid_each rel (wildcard w.dev tid)
    rw [registerTids]
    cases first : (wildcard w.dev tid).foldlM (registerTid env key rel) w with
    | error stopped =>
      rw [first] at tried
      exact tried
    | ok w' =>
      rw [first] at tried
      exact Tried.after tried ih

theorem specIPt_fault {b : Buffer} {extSize offset : Nat} {fault : Fault}
    (stopped : specIPt b extSize offset = .error fault) : fault = .buffer := by
  fun_induction specIPt b extSize offset with
  | case1 => cases stopped
  | case2 => cases stopped
  | case3 offset _ _ _ _ _ _ ih => exact ih stopped
  | case4 => cases stopped; rfl
  | case5 => cases stopped; rfl
  | case6 => cases stopped

variable {b : Buffer} {own : TransportId} {listed : Bool} {rel : UInt16}

theorem specIPt_attempted : Attempted env.alloc b.actionKey w (scstPrRegisterWithSpecIPt env b rel w) := by
  unfold scstPrRegisterWithSpecIPt
  by_cases long : b.size < (b.be32 24 + 28) % 2 ^ 32
  · rw [if_pos long]
    exact ⟨Status.noConfusion, .refl⟩
  · rw [if_neg long]
    cases walked : specIPt b (b.be32 24) 0 with
    | error fault => exact specIPt_fault walked
    | ok tids =>
      cases tids with
      | none => exact ⟨Status.noConfusion, .refl⟩
      | some tids => exact registerTids_tried rel tids

theorem registerSelf_tried : Tried env.alloc b.actionKey w (registerSelf env b own rel w) := by
  unfold registerSelf
  cases scstPrFindReg w.dev (some own) rel with
  | some reg => exact .refl
  | none =>
    cases added : scstPrAddRegistrant env.alloc w.dev own rel b.actionKey with
    | none => exact ⟨Status.noConfusion, .refl⟩
    | some result => exact Registers.refl.add added

theorem onTgtId_attempted : Attempted env.alloc b.actionKey w (scstPrRegisterOnTgtId env b own listed rel w) := by
  unfold scstPrRegisterOnTgtId
  cases listed with
  | false => exact registerSelf_tried
  | true =>
    have attempted : Attempted env.alloc b.actionKey w (scstPrRegisterWithSpecIPt env b rel w) := specIPt_attempted
    rw [if_pos rfl]
    cases walked : scstPrRegisterWithSpecIPt env b rel w with
    | error fault =>
      rw [walked] at attempted
      exact attempted
    | ok result =>
      rw [walked] at attempted
      cases result with
      | error stopped => exact attempted
      | ok w' => exact Tried.after attempted registerSelf_tried

theorem allTgPt_attempted (targets : List Target) :
    Attempted env.alloc b.actionKey w (scstPrRegisterAllTgPt env b own listed targets w) := by
  induction targets generalizing w with
  | nil => exact Registers.refl
  | cons tgt tgts ih =>
    rw [scstPrRegisterAllTgPt]
    by_cases skipped : tgt.protocol ≠ own.protocol ∨ tgt.relTgtId = 0 ∨ tgt.forwarding
    · rw [if_pos skipped]
      exact ih
    · rw [if_neg skipped]
      have attempted : Attempted env.alloc b.actionKey w (scstPrRegisterOnTgtId env b own listed tgt.relTgtId w) :=
        onTgtId_attempted
      cases first : scstPrRegisterOnTgtId env b own listed tgt.relTgtId w with
      | error fault =>
        rw [first] at attempted
        exact attempted
      | ok result =>
        rw [first] at attempted
        cases result with
        | error stopped => exact attempted
        | ok w' => exact Attempted.after attempted ih

end

/-! ### The way there -/

/-- Registering with `key` that was started on `d₀` and can still be taken back. -/
structure Pending (d₀ : Device) (key : Key) (w : Work) : Prop where
  undoing : Undoing d₀ w.dev w.rollback
  keyed : ∀ r ∈ w.dev.devRegistrantsList, r.ref ∈ w.rollback → r.key = key
  kept : w.dev.prHolder = d₀.prHolder

namespace Pending

variable {d₀ : Device} {key : Key} {w : Work}

theorem start (ok : d₀.Ok) (settled : d₀.Settled) : Pending d₀ key ⟨d₀, []⟩ where
  undoing :=
    { ok := ok
      frame := rfl
      holder := Or.inl rfl
      live := fun _ inside => absurd inside List.not_mem_nil
      once := List.nodup_nil
      quiet := fun r known _ => settled r known
      undone := by rw [undo_nil, List.filterMap_some]
      shape := rfl }
  keyed _ _ inside := absurd inside List.not_mem_nil
  kept := rfl

theorem add (pending : Pending d₀ key w) (valid : key ≠ 0) {alloc : Allocator} {d : Device} {p : Nat}
    {tid : TransportId} {rel : UInt16} (added : scstPrAddRegistrant alloc w.dev tid rel key = some (d, p)) :
    Pending d₀ key ⟨d, w.rollback ++ [p]⟩ := by
  have ok := pending.undoing.ok.add valid added
  obtain ⟨absent, fresh, t, chosen, rfl⟩ := add_inv added
  have old : ∀ r ∈ w.dev.devRegistrantsList, r.ref ≠ p := fun r known same => fresh (same ▸ List.mem_map_of_mem known)
  refine ⟨⟨ok, ?_, pending.undoing.holder, ?_, ?_, ?_, ?_, ?_⟩, ?_, pending.kept⟩
  · conv_lhs => rw [pending.undoing.frame]
  · intro q inside
    rw [List.map_append]
    rcases List.mem_append.mp inside with before | new
    · exact List.mem_append_left _ (pending.undoing.live q before)
    · exact List.mem_append_right _ new
  · refine List.nodup_append'.mpr ⟨pending.undoing.once, List.nodup_singleton _, List.disjoint_singleton.mpr ?_⟩
    exact fun inside => fresh (pending.undoing.live p inside)
  · intro r known outside
    rcases List.mem_append.mp known with before | new
    · exact pending.undoing.quiet r before fun inside => outside (List.mem_append_left _ inside)
    · rw [List.mem_singleton.mp new]
  · have same : ∀ r ∈ w.dev.devRegistrantsList, undo (w.rollback ++ [p]) r = undo w.rollback r := by
      intro r known
      simp [undo, old r known]
    rw [List.filterMap_append, List.filterMap_congr same, pending.undoing.undone]
    simp [undo]
  · rw [strip_map_point]
    exact pending.undoing.shape
  · intro r known inside
    rcases List.mem_append.mp known with before | new
    · refine pending.keyed r before ((List.mem_append.mp inside).resolve_right fun here => ?_)
      exact old r before (List.mem_singleton.mp here)
    · rw [List.mem_singleton.mp new]

theorem change (pending : Pending d₀ key w) (valid : key ≠ 0) {reg : Registrant}
    (mem : reg ∈ w.dev.devRegistrantsList) (other : reg.key ≠ key) :
    Pending d₀ key ⟨{ w.dev with devRegistrantsList := w.dev.devRegistrantsList.map (changeKey reg.ref key) },
      w.rollback ++ [reg.ref]⟩ := by
  have fresh : reg.ref ∉ w.rollback := fun inside => other (pending.keyed reg mem inside)
  have quiet := pending.undoing.quiet reg mem fresh
  have ref : ∀ r, (changeKey reg.ref key r).ref = r.ref := by
    intro r
    unfold changeKey
    split <;> rfl
  have off : ∀ r : Registrant, r.ref ≠ reg.ref → changeKey reg.ref key r = r := fun r other => if_neg other
  refine ⟨⟨?_, ?_, pending.undoing.holder, ?_, ?_, ?_, ?_, pending.undoing.shape⟩, ?_, pending.kept⟩
  · refine pending.undoing.ok.rekey (fun r => ?_) fun r known => ?_
    · unfold changeKey
      split <;> exact ⟨rfl, rfl, rfl, rfl⟩
    · unfold changeKey
      split
      · exact valid
      · exact pending.undoing.ok.registry.keys r known
  · conv_lhs => rw [pending.undoing.frame]
  · intro q inside
    have refs : (w.dev.devRegistrantsList.map (changeKey reg.ref key)).map Registrant.ref =
        w.dev.devRegistrantsList.map Registrant.ref := by
      rw [List.map_map]
      exact List.map_congr_left fun r _ => ref r
    change q ∈ (w.dev.devRegistrantsList.map (changeKey reg.ref key)).map Registrant.ref
    rw [refs]
    rcases List.mem_append.mp inside with before | new
    · exact pending.undoing.live q before
    · rw [List.mem_singleton.mp new]
      exact List.mem_map_of_mem mem
  · exact List.nodup_append'.mpr
      ⟨pending.undoing.once, List.nodup_singleton _, List.disjoint_singleton.mpr fresh⟩
  · intro r' known' outside
    obtain ⟨r, known, rfl⟩ := List.mem_map.mp known'
    rw [ref, List.mem_append, List.mem_singleton, not_or] at outside
    rw [off r outside.2]
    exact pending.undoing.quiet r known outside.1
  · rw [List.filterMap_map, ← pending.undoing.undone]
    refine List.filterMap_congr fun r known => ?_
    by_cases same : r.ref = reg.ref
    · rw [pending.undoing.ok.registry.reg_eq known mem same]
      have valid := pending.undoing.ok.registry.keys reg mem
      have back : { reg with rollbackKey := 0 } = reg := by rw [← quiet]
      simp [undo, changeKey, fresh, valid, back]
    · simp [undo, off r same, same]
  · intro r' known' inside
    obtain ⟨r, known, rfl⟩ := List.mem_map.mp known'
    by_cases same : r.ref = reg.ref
    · unfold changeKey
      rw [if_pos same]
    · rw [off r same] at inside ⊢
      refine pending.keyed r known ((List.mem_append.mp inside).resolve_right fun here => ?_)
      exact same (List.mem_singleton.mp here)

theorem registers (pending : Pending d₀ key w) (valid : key ≠ 0) {alloc : Allocator} {w' : Work}
    (registers : Registers alloc key w w') : Pending d₀ key w' := by
  induction registers with
  | refl => exact pending
  | add _ added ih => exact ih.add valid added
  | change _ mem other ih => exact ih.change valid mem other

end Pending

theorem settle_cases (done : List Nat) (r : Registrant) :
    settle done r = { r with rollbackKey := if r.ref ∈ done then 0 else r.rollbackKey } := by
  unfold settle
  split <;> rfl

theorem Pending.settle {d₀ : Device} {key : Key} {w : Work} (pending : Pending d₀ key w) :
    { w.dev with devRegistrantsList := w.dev.devRegistrantsList.map (Pres.settle w.rollback) }.Ok ∧
      { w.dev with devRegistrantsList := w.dev.devRegistrantsList.map (Pres.settle w.rollback) }.Settled := by
  constructor
  · refine pending.undoing.ok.rekey (fun r => ?_) fun r known => ?_
    · rw [settle_cases]
      exact ⟨rfl, rfl, rfl, rfl⟩
    · rw [settle_cases]
      exact pending.undoing.ok.registry.keys r known
  · intro r' known'
    obtain ⟨r, known, rfl⟩ := List.mem_map.mp known'
    rw [settle_cases]
    by_cases done : r.ref ∈ w.rollback
    · exact if_pos done
    · exact (if_neg done).trans (pending.undoing.quiet r known done)

/-- `d` is `d₀` but for the holder of a shared reservation, who may have been forgotten. -/
def Unchanged (d₀ d : Device) : Prop :=
  d = { d₀ with prHolder := d.prHolder } ∧
    (d.prHolder = d₀.prHolder ∨ d₀.prIsSet = true ∧ allReg d₀.prType = true ∧ d.prHolder = none)

/-- REGISTER does all of it, or nothing. -/
theorem registerOrRollback_spec (env : Env) {d : Device} {b : Buffer} (own : TransportId) (rel : UInt16)
    (listed allTgPt : Bool) (ok : d.Ok) (settled : d.Settled) (valid : b.actionKey ≠ 0) :
    (registerOrRollback env d b own rel listed allTgPt = .error .buffer) ∨
      (∃ w, Registers env.alloc b.actionKey ⟨d, []⟩ w ∧ registerOrRollback env d b own rel listed allTgPt =
        .ok ({ w.dev with devRegistrantsList := w.dev.devRegistrantsList.map (settle w.rollback) }, .good)) ∨
      (∃ d' status, status ≠ .good ∧ d'.Ok ∧ Unchanged d d' ∧
        registerOrRollback env d b own rel listed allTgPt = .ok (d', status)) := by
  have attempted : Attempted env.alloc b.actionKey ⟨d, []⟩
      (if allTgPt then scstPrRegisterAllTgPt env b own listed env.targets ⟨d, []⟩
        else scstPrRegisterOnTgtId env b own listed rel ⟨d, []⟩) := by
    split
    · exact allTgPt_attempted env.targets
    · exact onTgtId_attempted
  unfold registerOrRollback
  generalize (if allTgPt then scstPrRegisterAllTgPt env b own listed env.targets ⟨d, []⟩
    else scstPrRegisterOnTgtId env b own listed rel ⟨d, []⟩) = registered at attempted ⊢
  rcases registered with fault | ⟨status, w⟩ | w
  · exact Or.inl (congrArg Except.error attempted)
  · obtain ⟨failed, registers⟩ := attempted
    have pending := (Pending.start ok settled).registers valid registers
    obtain ⟨d', back, undone⟩ := rollback_ok ok.reserved pending.undoing
    refine Or.inr (Or.inr ⟨d', status, failed, undone.ok, ⟨undone.restored ok, undone.holder⟩, ?_⟩)
    simp only [back]
  · exact Or.inr (Or.inl ⟨w, attempted, rfl⟩)

end Ldd3.Pres
