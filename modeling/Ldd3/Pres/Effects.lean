import Ldd3.Pres.Rollback

/-!
What a PERSISTENT RESERVE OUT command can do, said once for all eight service actions. Everything that
holds of every command is read off this list. The commands that withdraw registrations all do it by
removing registrants one after the other.
-/

namespace Ldd3.Pres

def Event.target : Event → Nat
  | .ua t _ => t
  | .abort t => t

/-- The event goes to the nexus of a registrant. -/
def Addressed (d : Device) (e : Event) : Prop := ∃ r ∈ d.devRegistrantsList, r.tgtDev = some e.target

/-! ### Removing registrants -/

inductive Removes : Device → List Registrant → Device → Prop where
  | nil (d : Device) : Removes d [] d
  | cons {d d' : Device} {reg : Registrant} {list : List Registrant} (mem : reg ∈ d.devRegistrantsList)
      (rest : Removes (scstPrRemoveRegistrant d reg) list d') : Removes d (reg :: list) d'

namespace Removes

variable {d d' : Device} {list : List Registrant}

theorem ok (removes : Removes d list d') (ok : d.Ok) : d'.Ok := by
  induction removes with
  | nil d => exact ok
  | cons mem rest ih => exact ih (ok.remove mem)

theorem regs (removes : Removes d list d') :
    d'.devRegistrantsList = d.devRegistrantsList.filter fun r => r.ref ∉ list.map Registrant.ref := by
  induction removes with
  | nil d => simp
  | cons mem rest ih =>
    rw [ih, remove_regs, List.filter_filter]
    refine List.filter_congr fun r _ => ?_
    rw [Bool.and_comm, ← Bool.decide_and, List.map_cons]
    exact decide_eq_decide.mpr (by rw [List.mem_cons, not_or])

theorem members (removes : Removes d list d') : ∀ r ∈ list, r ∈ d.devRegistrantsList := by
  induction removes with
  | nil d => exact fun r inside => absurd inside List.not_mem_nil
  | cons mem rest ih =>
    intro r inside
    rcases List.mem_cons.mp inside with rfl | inside
    · exact mem
    · have known := ih r inside
      rw [remove_regs] at known
      exact (List.mem_filter.mp known).1

theorem sublist (removes : Removes d list d') : d'.devRegistrantsList.Sublist d.devRegistrantsList := by
  rw [removes.regs]
  exact List.filter_sublist

theorem settled (removes : Removes d list d') (settled : d.Settled) : d'.Settled :=
  fun r known => settled r (removes.sublist.subset known)

theorem frame (removes : Removes d list d') :
    d'.prGeneration = d.prGeneration ∧ d'.prAptpl = d.prAptpl ∧ d'.tas = d.tas := by
  induction removes with
  | nil d => exact ⟨rfl, rfl, rfl⟩
  | cons mem rest ih =>
    rw [ih.1, ih.2.1, ih.2.2]
    exact remove_frame _ _

theorem single {reg : Registrant} (mem : reg ∈ d.devRegistrantsList) : Removes d [reg] (scstPrRemoveRegistrant d reg) :=
  .cons mem (.nil _)

end Removes

/-- The registrants that come after a removed one on a list are still there. -/
theorem still_members {d : Device} {reg : Registrant} {list : List Registrant}
    (once : ((reg :: list).map Registrant.ref).Nodup) (members : ∀ r ∈ reg :: list, r ∈ d.devRegistrantsList) :
    ∀ r ∈ list, r ∈ (scstPrRemoveRegistrant d reg).devRegistrantsList := by
  intro r inside
  rw [remove_regs]
  refine List.mem_filter.mpr ⟨members r (List.mem_cons_of_mem _ inside), decide_eq_true fun same => ?_⟩
  rw [List.map_cons, List.nodup_cons] at once
  exact once.1 (same ▸ List.mem_map_of_mem inside)

theorem removes_foldl {list : List Registrant} {d : Device} (once : (list.map Registrant.ref).Nodup)
    (members : ∀ r ∈ list, r ∈ d.devRegistrantsList) : Removes d list (list.foldl scstPrRemoveRegistrant d) := by
  induction list generalizing d with
  | nil => exact .nil d
  | cons reg list ih =>
    exact .cons (members reg List.mem_cons_self) (ih once.of_cons (still_members once members))

/-! ### Unit attentions and aborts -/

theorem sendUaReg_target {reg : Registrant} {sense : Sense} {e : Event} (sent : e ∈ scstPrSendUaReg reg sense) :
    reg.tgtDev = some e.target := by
  unfold scstPrSendUaReg at sent
  obtain ⟨i, own, rfl⟩ := List.mem_map.mp sent
  exact Option.mem_toList.mp own

theorem sendUaReg_mem {reg : Registrant} {i : Nat} (own : reg.tgtDev = some i) (sense : Sense) :
    .ua i sense ∈ scstPrSendUaReg reg sense :=
  List.mem_map.mpr ⟨i, Option.mem_toList.mpr own, rfl⟩

theorem sendUaAll_addressed {d : Device} {excluded : Option Nat} {sense : Sense} {e : Event}
    (sent : e ∈ scstPrSendUaAll d excluded sense) : Addressed d e := by
  obtain ⟨r, known, sent⟩ := List.mem_flatMap.mp sent
  split at sent
  · exact ⟨r, known, sendUaReg_target sent⟩
  · cases sent

theorem sendUaAll_mem {d : Device} {r : Registrant} (known : r ∈ d.devRegistrantsList) {excluded : Option Nat}
    (other : some r.ref ≠ excluded) {i : Nat} (own : r.tgtDev = some i) (sense : Sense) :
    .ua i sense ∈ scstPrSendUaAll d excluded sense := by
  refine List.mem_flatMap.mpr ⟨r, known, ?_⟩
  rw [if_pos other]
  exact sendUaReg_mem own sense

theorem abortReg_target {env : Env} {d : Device} {sender : Nat} {reg : Registrant} {e : Event}
    (sent : e ∈ scstPrAbortReg env d sender reg) : reg.tgtDev = some e.target := by
  unfold scstPrAbortReg at sent
  cases own : reg.tgtDev with
  | none =>
    rw [own] at sent
    cases sent
  | some i =>
    simp only [own] at sent
    split at sent
    · rcases List.mem_cons.mp sent with rfl | sent
      · rfl
      · split at sent
        · rw [List.mem_singleton.mp sent]
          rfl
        · cases sent
    · cases sent

theorem Addressed.of_sublist {d d' : Device} {e : Event} (addressed : Addressed d' e)
    (sublist : d'.devRegistrantsList.Sublist d.devRegistrantsList) : Addressed d e := by
  obtain ⟨r, known, own⟩ := addressed
  exact ⟨r, sublist.subset known, own⟩

/-! ### Withdrawing registrations -/

theorem unregister_addressed {d : Device} {reg : Registrant} {e : Event} (sent : e ∈ (scstPrUnregister d reg).2) :
    Addressed d e := by
  simp only [scstPrUnregister] at sent
  split at sent
  · refine (sendUaAll_addressed sent).of_sublist ?_
    rw [remove_regs]
    exact List.filter_sublist
  · cases sent

theorem unregisterAll_removes (tid : TransportId) (tgts : List Target) (d : Device) :
    ∃ list, Removes d list (scstPrUnregisterAllTgPt tid tgts d).1 ∧
      (∀ r ∈ list, tidEqual (some r.transportId) (some tid) = true) ∧
      ∀ e ∈ (scstPrUnregisterAllTgPt tid tgts d).2, Addressed d e := by
  induction tgts generalizing d with
  | nil =>
    exact ⟨[], .nil d, fun r inside => absurd inside List.not_mem_nil, fun e sent => absurd sent List.not_mem_nil⟩
  | cons tgt tgts ih =>
    rw [scstPrUnregisterAllTgPt]
    split
    · exact ih d
    · cases found : scstPrFindReg d (some tid) tgt.relTgtId with
      | none => exact ih d
      | some reg =>
        obtain ⟨mem, fits⟩ := findReg_some found
        obtain ⟨list, removes, own, addressed⟩ := ih (scstPrUnregister d reg).1
        refine ⟨reg :: list, .cons mem removes, ?_, fun e sent => ?_⟩
        · intro r inside
          rcases List.mem_cons.mp inside with rfl | inside
          · exact fits.2
          · exact own r inside
        · rcases List.mem_append.mp sent with sent | sent
          · exact unregister_addressed sent
          · exact (addressed e sent).of_sublist (Removes.single mem).sublist

section

variable (env : Env) (abort spare : Bool) (sender self : Nat)

theorem preemptEach_removes {list : List Registrant} {d : Device} (once : (list.map Registrant.ref).Nodup)
    (members : ∀ r ∈ list, r ∈ d.devRegistrantsList) :
    Removes d (list.filter fun r => ¬ (spare ∧ r.ref = self)) (preemptEach env abort spare sender self list d).1 := by
  induction list generalizing d with
  | nil => exact .nil d
  | cons reg list ih =>
    rw [preemptEach, List.filter_cons]
    by_cases spared : spare ∧ reg.ref = self
    · rw [if_neg (by simpa using spared)]
      simp only [if_pos spared]
      exact ih once.of_cons fun r inside => members r (List.mem_cons_of_mem _ inside)
    · rw [if_pos (decide_eq_true spared)]
      simp only [if_neg spared]
      exact .cons (members reg List.mem_cons_self) (ih once.of_cons (still_members once members))

theorem preemptEach_target {list : List Registrant} {d : Device} {e : Event}
    (sent : e ∈ (preemptEach env abort spare sender self list d).2) : ∃ r ∈ list, r.tgtDev = some e.target := by
  induction list generalizing d with
  | nil => cases sent
  | cons reg list ih =>
    rw [preemptEach] at sent
    rcases List.mem_append.mp sent with sent | sent
    · refine ⟨reg, List.mem_cons_self, ?_⟩
      rcases List.mem_append.mp sent with sent | sent
      · split at sent
        · exact abortReg_target sent
        · cases sent
      · split at sent
        · exact sendUaReg_target sent
        · cases sent
    · obtain ⟨r, inside, own⟩ := ih sent
      exact ⟨r, List.mem_cons_of_mem _ inside, own⟩

theorem preemptEach_told {list : List Registrant} {d : Device} {r : Registrant} (inside : r ∈ list)
    (other : r.ref ≠ self) {i : Nat} (own : r.tgtDev = some i) :
    .ua i .registrationsPreempted ∈ (preemptEach env abort spare sender self list d).2 := by
  induction list generalizing d with
  | nil => cases inside
  | cons reg list ih =>
    rw [preemptEach]
    rcases List.mem_cons.mp inside with rfl | inside
    · refine List.mem_append_left _ (List.mem_append_right _ ?_)
      rw [if_pos other]
      exact sendUaReg_mem own _
    · exact List.mem_append_right _ (ih inside)

end

/-! ### The effects -/

/-- The command takes the registration of `r` away from it. -/
def Evicts (d : Device) (c : Cmd) (r : Registrant) : Prop :=
  c.serviceAction = some .clear ∨
    (c.serviceAction = some .preempt ∨ c.serviceAction = some .preemptAndAbort) ∧
      (r.key = c.buffer.actionKey ∨ c.buffer.actionKey = 0 ∧ d.prIsSet = true ∧ allReg d.prType = true)

/-- Why `r` is no longer registered: it belongs to the sender, or it was evicted and its nexus told. -/
def Lost (d : Device) (t : TgtDev) (c : Cmd) (events : List Event) (r : Registrant) : Prop :=
  t.registrant = some r.ref ∨ tidEqual (some r.transportId) t.transportId = true ∨
    Evicts d c r ∧ ∀ i, r.tgtDev = some i → ∃ sense, .ua i sense ∈ events

/-- `tgt_dev->registrant` -/
def Device.Own (d : Device) (t : TgtDev) (reg : Registrant) : Prop :=
  reg ∈ d.devRegistrantsList ∧ t.registrant = some reg.ref

inductive Effect (env : Env) (d : Device) (t : TgtDev) (c : Cmd) : Outcome → Prop where
  | refused {status : Status} (failed : status ≠ .good) : Effect env d t c (refuse d status)
  | rolledBack {d' : Device} {status : Status} (failed : status ≠ .good) (ok : d'.Ok) (back : Unchanged d d') :
      Effect env d t c ⟨d', status, []⟩
  | idle : Effect env d t c ⟨d, .good, []⟩
  | recorded {aptpl : Bool} : Effect env d t c (recordRegistration d aptpl [])
  | registered {w : Work} {aptpl : Bool} (valid : c.buffer.actionKey ≠ 0)
      (registers : Registers env.alloc c.buffer.actionKey ⟨d, []⟩ w) :
      Effect env d t c (recordRegistration
        { w.dev with devRegistrantsList := w.dev.devRegistrantsList.map (settle w.rollback) } aptpl [])
  | rekeyed {reg : Registrant} {aptpl : Bool} (own : d.Own t reg) (valid : c.buffer.actionKey ≠ 0) :
      Effect env d t c (recordRegistration
        { d with devRegistrantsList := d.devRegistrantsList.map (setKey reg.ref c.buffer.actionKey) } aptpl [])
  | withdrawn {reg : Registrant} {list : List Registrant} {left : Device} {aptpl : Bool} {events : List Event}
      (own : d.Own t reg) (removes : Removes d list left) (lost : ∀ r ∈ list, Lost d t c events r)
      (addressed : ∀ e ∈ events, Addressed d e) : Effect env d t c (recordRegistration left aptpl events)
  | moved {reg : Registrant} {tid : TransportId} {rel : UInt16} {there : Device} {p : Nat} {list : List Registrant}
      {left : Device} {aptpl : Bool} (own : d.Own t reg) (valid : c.buffer.actionKey ≠ 0) (set : d.prIsSet = true)
      (one : allReg d.prType = false) (holds : d.prHolder = some reg.ref)
      (found : moveTo env d tid rel c.buffer.actionKey = some (there, p))
      (removes : Removes (scstPrSetHolder there p there.prScope there.prType) list left)
      (lost : ∀ r ∈ list, r.ref = reg.ref) : Effect env d t c (recordRegistration left aptpl [])
  | reserved {reg : Registrant} (own : d.Own t reg) (free : d.prIsSet = false)
      (valid : scstPrTypeValid c.type = true) : Effect env d t c ⟨scstPrSetHolder d reg.ref scopeLu c.type, .good, []⟩
  | released {reg : Registrant} {events : List Event} (own : d.Own t reg)
      (holds : scstPrIsHolder d (some reg.ref) = true) (addressed : ∀ e ∈ events, Addressed d e) :
      Effect env d t c ⟨scstPrClearReservation d, .good, events⟩
  | taken {reg : Registrant} {list : List Registrant} {left : Device} {events : List Event} (own : d.Own t reg)
      (valid : scstPrTypeValid c.type = true) (removes : Removes d list left) (spared : ∀ r ∈ list, r.ref ≠ reg.ref)
      (ousted : ∀ r ∈ d.devRegistrantsList, scstPrIsHolder d (some r.ref) = true → r.ref ≠ reg.ref → r ∈ list)
      (lost : ∀ r ∈ list, Lost d t c events r) (addressed : ∀ e ∈ events, Addressed d e) :
      Effect env d t c (recordRegistration (scstPrSetHolder left reg.ref scopeLu c.type) left.prAptpl events)

/-- What a command comes to. -/
inductive Answers (env : Env) (d : Device) (t : TgtDev) (c : Cmd) : Except Fault Outcome → Prop where
  | served {out : Outcome} (effect : Effect env d t c out) : Answers env d t c (.ok out)
  | overrun : Answers env d t c (.error .buffer)

section

variable {env : Env} {d : Device} {t : TgtDev} {c : Cmd} {own : TransportId} {reg : Registrant}

theorem refuse_answers {status : Status} (failed : status ≠ .good) : Answers env d t c (.ok (refuse d status)) :=
  .served (.refused failed)

theorem registerNew_answers (ok : d.Ok) (settled : d.Settled) (listed : Bool) :
    Answers env d t c (registerNew env d t own c.buffer listed) := by
  unfold registerNew
  by_cases zero : c.buffer.actionKey = 0
  · rw [if_pos zero]
    exact .served .recorded
  · rw [if_neg zero]
    have spec := registerOrRollback_spec env own t.relTgtId listed (c.buffer.flag 20 2) ok settled zero
    rcases spec with stopped | ⟨w, registers, done⟩ | ⟨d', status, failed, ok, back, done⟩
    · rw [stopped]
      exact .overrun
    · rw [done]
      exact .served (.registered zero registers)
    · rw [done]
      cases status with
      | good => exact absurd rfl failed
      | _ => exact .served (.rolledBack failed ok back)

theorem registerAgain_effect (tid : t.transportId = some own) (self : d.Own t reg) :
    Effect env d t c (registerAgain env d own reg c.buffer) := by
  unfold registerAgain
  by_cases zero : c.buffer.actionKey = 0
  · rw [if_pos zero]
    cases all : c.buffer.flag 20 2 with
    | true =>
      obtain ⟨list, removes, same, addressed⟩ := unregisterAll_removes own env.targets d
      refine .withdrawn self removes (fun r inside => Or.inr (Or.inl ?_)) addressed
      rw [tid]
      exact same r inside
    | false =>
      refine .withdrawn self (Removes.single self.1) (fun r inside => Or.inl ?_) fun e sent => unregister_addressed sent
      rw [List.mem_singleton.mp inside]
      exact self.2
  · rw [if_neg zero]
    exact .rekeyed self zero

/-- The registrant that a command finds, if any. -/
def Finds (d : Device) (t : TgtDev) : Option Registrant → Prop
  | some reg => d.Own t reg
  | none => t.registrant = none

theorem register_answers (ok : d.Ok) (settled : d.Settled) (tid : t.transportId = some own) {reg : Option Registrant}
    (finds : Finds d t reg) : Answers env d t c (scstPrRegister env d t own reg c.buffer) := by
  cases reg with
  | none =>
    simp only [scstPrRegister]
    split
    · exact refuse_answers Status.noConfusion
    · split
      · exact refuse_answers Status.noConfusion
      · exact registerNew_answers ok settled _
  | some reg =>
    simp only [scstPrRegister]
    split
    · exact refuse_answers Status.noConfusion
    · split
      · exact refuse_answers Status.noConfusion
      · split
        · exact refuse_answers Status.noConfusion
        · exact .served (registerAgain_effect tid finds)

theorem registerAndIgnore_answers (ok : d.Ok) (settled : d.Settled) (tid : t.transportId = some own)
    {reg : Option Registrant} (finds : Finds d t reg) :
    Answers env d t c (scstPrRegisterAndIgnore env d t own reg c.buffer) := by
  unfold scstPrRegisterAndIgnore
  split
  · exact refuse_answers Status.noConfusion
  · cases reg with
    | none => exact registerNew_answers ok settled _
    | some reg => exact .served (registerAgain_effect tid finds)

theorem moveRefusal_failed {status : Status} (refused : moveRefusal d own reg c.buffer = some status) :
    status ≠ .good := by
  rintro rfl
  unfold moveRefusal at refused
  repeat' split at refused
  all_goals cases refused

theorem passed {p : Prop} [Decidable p] {status : Status} {rest : Option Status}
    (through : (if p then some status else rest) = none) : ¬ p ∧ rest = none := by
  split at through
  · cases through
  · exact ⟨‹_›, through⟩

theorem moveRefusal_none (through : moveRefusal d own reg c.buffer = none) :
    d.prIsSet = true ∧ allReg d.prType = false ∧ d.prHolder = some reg.ref ∧ c.buffer.actionKey ≠ 0 := by
  unfold moveRefusal at through
  obtain ⟨_, through⟩ := passed through
  obtain ⟨_, through⟩ := passed through
  obtain ⟨_, through⟩ := passed through
  obtain ⟨set, through⟩ := passed through
  obtain ⟨holds, through⟩ := passed through
  obtain ⟨valid, through⟩ := passed through
  obtain ⟨_, through⟩ := passed through
  obtain ⟨one, through⟩ := passed through
  have set := Decidable.not_not.mp set
  have one := Bool.eq_false_iff.mpr one
  exact ⟨set, one, ((isHolder_one one reg.ref).mp (Decidable.not_not.mp holds)).2, valid⟩

theorem mem_setKey {regs : List Registrant} {r : Registrant} (known : r ∈ regs) (p : Nat) (key : Key) :
    ∃ r' ∈ regs.map (setKey p key), r'.ref = r.ref := by
  refine ⟨setKey p key r, List.mem_map_of_mem known, ?_⟩
  unfold setKey
  split <;> rfl

/-- The sender is still registered when the reservation has moved. -/
theorem moveTo_keeps {tid : TransportId} {rel : UInt16} {key : Key} {there : Device} {p : Nat}
    (found : moveTo env d tid rel key = some (there, p)) :
    d.devRegistrantsList.map Registrant.ref ⊆ there.devRegistrantsList.map Registrant.ref := by
  intro q live
  obtain ⟨r, known, rfl⟩ := List.mem_map.mp live
  unfold moveTo at found
  cases known' : scstPrFindReg d (some tid) rel with
  | none =>
    rw [known'] at found
    obtain ⟨_, _, t, _, rfl⟩ := add_inv found
    exact List.mem_map_of_mem (List.mem_append_left _ known)
  | some reg =>
    rw [known'] at found
    cases found
    obtain ⟨r', known, same⟩ := mem_setKey known reg.ref key
    exact List.mem_map.mpr ⟨r', known, same⟩

theorem registerAndMove_answers (self : d.Own t reg) :
    Answers env d t c (scstPrRegisterAndMove env d own reg c.buffer) := by
  unfold scstPrRegisterAndMove
  cases refused : moveRefusal d own reg c.buffer with
  | some status => exact refuse_answers (moveRefusal_failed refused)
  | none =>
    obtain ⟨set, one, holds, valid⟩ := moveRefusal_none refused
    cases found : moveTo env d (tidSecure (c.buffer.transportId 24)) (UInt16.ofNat (c.buffer.be16 18))
      c.buffer.actionKey with
    | none => exact refuse_answers Status.noConfusion
    | some result =>
      obtain ⟨there, p⟩ := result
      simp only
      cases unreg : c.buffer.flag 17 1 with
      | false =>
        rw [if_neg Bool.false_ne_true]
        exact .served (.moved self valid set one holds found (.nil _) fun r inside => absurd inside List.not_mem_nil)
      | true =>
        rw [if_pos rfl]
        obtain ⟨reg', known⟩ := reg_of_mem (d := scstPrSetHolder there p there.prScope there.prType)
          (moveTo_keeps found (List.mem_map_of_mem self.1))
        obtain ⟨mem, same⟩ := reg_mem known
        rw [known]
        refine .served (.moved self valid set one holds found (Removes.single mem) fun r inside => ?_)
        rw [List.mem_singleton.mp inside]
        exact same

theorem reserve_effect (self : d.Own t reg) : Effect env d t c (scstPrReserve d reg c) := by
  unfold scstPrReserve
  split
  · exact .refused Status.noConfusion
  split
  · exact .refused Status.noConfusion
  rename_i valid
  split
  · exact .refused Status.noConfusion
  rename_i scope
  split
  · exact .refused Status.noConfusion
  split
  · rename_i free
    rw [Decidable.not_not.mp scope]
    exact .reserved self (Bool.eq_false_iff.mpr free) (Decidable.not_not.mp valid)
  split
  · exact .refused Status.noConfusion
  split
  · exact .refused Status.noConfusion
  · exact .idle

theorem release_effect (self : d.Own t reg) : Effect env d t c (scstPrRelease d reg c) := by
  unfold scstPrRelease
  split
  · exact .refused Status.noConfusion
  split
  · exact .idle
  split
  · exact .refused Status.noConfusion
  split
  · exact .idle
  rename_i holds
  split
  · exact .refused Status.noConfusion
  · refine .released self (Decidable.not_not.mp holds) fun e sent => ?_
    split at sent
    · obtain ⟨r, known, own⟩ := sendUaAll_addressed sent
      exact ⟨r, known, own⟩
    · cases sent

theorem clear_effect (ok : d.Ok) (self : d.Own t reg) (clear : c.serviceAction = some .clear) :
    Effect env d t c (scstPrClear d reg c) := by
  unfold scstPrClear
  split
  · exact .refused Status.noConfusion
  split
  · exact .refused Status.noConfusion
  · refine .withdrawn self (removes_foldl ok.registry.refs fun r known => known) (fun r known => ?_)
      fun e sent => sendUaAll_addressed sent
    by_cases same : r.ref = reg.ref
    · exact Or.inl (same ▸ self.2)
    · refine Or.inr (Or.inr ⟨Or.inl clear, fun i own => ⟨.reservationPreempted, ?_⟩⟩)
      exact sendUaAll_mem known (fun same' => same (Option.some.inj same')) own _

/-- A list of registrants that PREEMPT may go over. -/
structure Preempts (d : Device) (c : Cmd) (list : List Registrant) : Prop where
  once : (list.map Registrant.ref).Nodup
  members : ∀ r ∈ list, r ∈ d.devRegistrantsList
  evicts : ∀ r ∈ list, Evicts d c r

section

variable (ok : d.Ok) (action : c.serviceAction = some .preempt ∨ c.serviceAction = some .preemptAndAbort)
include ok action

theorem preempts_key : Preempts d c (scstPrFindRegistrantsListKey d c.buffer.actionKey) where
  once := ok.registry.refs.sublist (List.filter_sublist.map _)
  members _ inside := (List.mem_filter.mp inside).1
  evicts _ inside := Or.inr ⟨action, Or.inl (of_decide_eq_true (List.mem_filter.mp inside).2)⟩

theorem preempts_all (reg : Registrant) (set : d.prIsSet = true) (all : allReg d.prType = true) (zero : c.buffer.actionKey = 0) :
    Preempts d c (scstPrFindRegistrantsListAll d reg) where
  once := ok.registry.refs.sublist (List.filter_sublist.map _)
  members _ inside := (List.mem_filter.mp inside).1
  evicts _ _ := Or.inr ⟨action, Or.inr ⟨zero, set, all⟩⟩

end

theorem Preempts.lost (env : Env) {list : List Registrant} (preempts : Preempts d c list) (self : d.Own t reg)
    (abort spare : Bool) (later : List Event) : ∀ r ∈ list,
      Lost d t c ((preemptEach env abort spare t.id reg.ref list d).2 ++ later) r := by
  intro r inside
  by_cases same : r.ref = reg.ref
  · exact Or.inl (same ▸ self.2)
  · refine Or.inr (Or.inr ⟨preempts.evicts r inside, fun i own => ⟨.registrationsPreempted, ?_⟩⟩)
    exact List.mem_append_left _ (preemptEach_told env abort spare t.id reg.ref inside same own)

theorem Preempts.addressed {list : List Registrant} (preempts : Preempts d c list) {abort spare : Bool} {e : Event}
    (sent : e ∈ (preemptEach env abort spare t.id reg.ref list d).2) : Addressed d e := by
  obtain ⟨r, inside, own⟩ := preemptEach_target env abort spare t.id reg.ref sent
  exact ⟨r, preempts.members r inside, own⟩

theorem preemptKey_effect (ok : d.Ok) (self : d.Own t reg)
    (action : c.serviceAction = some .preempt ∨ c.serviceAction = some .preemptAndAbort) (abort spare : Bool) :
    Effect env d t c (preemptKey env d abort spare t.id reg c.buffer.actionKey) := by
  have preempts := preempts_key ok action
  simp only [preemptKey]
  split
  · exact .refused Status.noConfusion
  · have lost := preempts.lost env self abort spare []
    rw [List.append_nil] at lost
    refine .withdrawn self (preemptEach_removes env abort spare t.id reg.ref preempts.once preempts.members) ?_
      fun e sent => preempts.addressed sent
    exact fun r inside => lost r (List.mem_filter.mp inside).1

/-- The sender holds the reservation afterwards. -/
theorem preempt_taken (env : Env) {list : List Registrant} (preempts : Preempts d c list) (self : d.Own t reg)
    (abort : Bool) (valid : scstPrTypeValid c.type = true)
    (ousted : ∀ r ∈ d.devRegistrantsList, scstPrIsHolder d (some r.ref) = true → r.ref ≠ reg.ref → r ∈ list)
    (later : List Event) (addressed : ∀ e ∈ later, Addressed d e) :
    Effect env d t c (preempted
      (scstPrSetHolder (preemptEach env abort true t.id reg.ref list d).1 reg.ref scopeLu c.type)
      ((preemptEach env abort true t.id reg.ref list d).2 ++ later)) := by
  refine .taken self valid (preemptEach_removes env abort true t.id reg.ref preempts.once preempts.members) ?_ ?_ ?_ ?_
  · intro r inside
    have kept := of_decide_eq_true (List.mem_filter.mp inside).2
    exact fun same => kept ⟨rfl, same⟩
  · intro r known holds other
    exact List.mem_filter.mpr ⟨ousted r known holds other, decide_eq_true fun spared => other spared.2⟩
  · exact fun r inside => preempts.lost env self abort true later r (List.mem_filter.mp inside).1
  · intro e sent
    rcases List.mem_append.mp sent with sent | sent
    · exact preempts.addressed sent
    · exact addressed e sent

theorem doPreempt_answers (ok : d.Ok) (self : d.Own t reg)
    (action : c.serviceAction = some .preempt ∨ c.serviceAction = some .preemptAndAbort) (scope : c.scope = scopeLu)
    (abort : Bool) : Answers env d t c (scstPrDoPreempt env d t reg c abort) := by
  simp only [scstPrDoPreempt]
  split
  · exact refuse_answers Status.noConfusion
  split
  · exact refuse_answers Status.noConfusion
  rename_i valid
  have valid := Decidable.not_not.mp valid
  split
  · exact refuse_answers Status.noConfusion
  split
  · exact .served (preemptKey_effect ok self action abort true)
  rename_i set
  have set := Decidable.not_not.mp set
  split
  · rename_i all
    split
    · rename_i zero
      have taken := preempt_taken env (preempts_all ok action reg set all zero) self abort valid
        (fun r known _ other => List.mem_filter.mpr ⟨known, decide_eq_true other⟩) []
        fun e sent => absurd sent List.not_mem_nil
      rw [List.append_nil] at taken
      rw [scope]
      exact .served taken
    · exact .served (preemptKey_effect ok self action abort true)
  · rename_i one
    obtain ⟨p, holds⟩ := Option.ne_none_iff_exists'.mp ((ok.reserved.held set).2.2.2 (Bool.eq_false_iff.mpr one))
    obtain ⟨holder, found⟩ := reg_of_mem (ok.reserved.holder p holds)
    have bound : d.prHolder.bind d.reg = some holder := by rw [holds]; exact found
    rw [bound]
    simp only
    split
    · split
      · exact refuse_answers Status.noConfusion
      · exact .served (preemptKey_effect ok self action abort false)
    · rename_i key
      have preempts := preempts_key ok action
      have ousted : ∀ r ∈ d.devRegistrantsList, scstPrIsHolder d (some r.ref) = true → r.ref ≠ reg.ref →
          r ∈ scstPrFindRegistrantsListKey d c.buffer.actionKey := by
        intro r known held _
        have same : r = holder := by
          obtain ⟨mem, rfl⟩ := reg_mem found
          have held := ((isHolder_one (Bool.eq_false_iff.mpr one) r.ref).mp held).2
          exact ok.registry.reg_eq known mem (Option.some.inj (held.symm.trans holds))
        exact List.mem_filter.mpr ⟨known, decide_eq_true (same ▸ Decidable.not_not.mp key)⟩
      rw [scope]
      refine .served (preempt_taken env preempts self abort valid ousted _ fun e sent => ?_)
      split at sent
      · have removes := preemptEach_removes env abort true t.id reg.ref preempts.once preempts.members
        exact (sendUaAll_addressed sent).of_sublist removes.sublist
      · cases sent

theorem precheck_failed {status : Status} (refused : precheck t c = some status) : status ≠ .good := by
  rintro rfl
  simp only [precheck] at refused
  repeat' split at refused
  all_goals cases refused

/-- A command that is served and does not register comes from a registrant, and, CLEAR apart, for the
whole logical unit. -/
theorem precheck_none (through : precheck t c = none) (register : c.serviceAction ≠ some .register)
    (ignore : c.serviceAction ≠ some .registerAndIgnore) :
    t.registrant ≠ none ∧ (c.serviceAction ≠ some .clear → c.scope = scopeLu) := by
  unfold precheck at through
  obtain ⟨registered, through⟩ := passed through
  obtain ⟨scope, _⟩ := passed through
  have other : ¬ (c.serviceAction = some .register ∨ c.serviceAction = some .registerAndIgnore) :=
    not_or.mpr ⟨register, ignore⟩
  refine ⟨fun none => registered ⟨other, none⟩, fun clear => ?_⟩
  by_contra wrong
  exact scope ⟨other, clear, wrong⟩

theorem reg_finds (ok : d.Ok) (inside : t ∈ d.tgtDevs) : ∃ reg, t.reg d = .ok reg ∧ Finds d t reg := by
  unfold TgtDev.reg
  cases points : t.registrant with
  | none => exact ⟨none, rfl, points⟩
  | some p =>
    obtain ⟨r, known, rfl, _⟩ := ok.registry.linked t inside p points
    obtain ⟨reg, found⟩ := reg_of_mem (List.mem_map_of_mem known)
    obtain ⟨mem, same⟩ := reg_mem found
    exact ⟨some reg, by simp only [found], mem, same ▸ points⟩

theorem serve_answers (ok : d.Ok) (settled : d.Settled) (tid : t.transportId = some own) {reg : Option Registrant}
    (finds : Finds d t reg) (through : precheck t c = none) : Answers env d t c (serve env d t own reg c) := by
  cases action : c.serviceAction with
  | none =>
    simp only [serve, action]
    exact refuse_answers Status.noConfusion
  | some action' =>
    by_cases register : action' = .register
    · simp only [serve, action, register]
      exact register_answers ok settled tid finds
    by_cases ignore : action' = .registerAndIgnore
    · simp only [serve, action, ignore]
      exact registerAndIgnore_answers ok settled tid finds
    have other := precheck_none through (by simpa [action] using register) (by simpa [action] using ignore)
    cases reg with
    | none => exact absurd finds other.1
    | some reg =>
      cases action' with
      | register => exact absurd rfl register
      | registerAndIgnore => exact absurd rfl ignore
      | reserve =>
        simp only [serve, action]
        exact .served (reserve_effect finds)
      | release =>
        simp only [serve, action]
        exact .served (release_effect finds)
      | clear =>
        simp only [serve, action]
        exact .served (clear_effect ok finds action)
      | preempt =>
        simp only [serve, action, scstPrPreempt]
        exact doPreempt_answers ok finds (Or.inl action) (other.2 (by simp [action])) false
      | preemptAndAbort =>
        simp only [serve, action, scstPrPreemptAndAbort]
        split
        · exact doPreempt_answers ok finds (Or.inr action) (other.2 (by simp [action])) true
        · exact refuse_answers Status.noConfusion
      | registerAndMove =>
        simp only [serve, action]
        exact registerAndMove_answers finds

theorem reserveOut_answers (ok : d.Ok) (settled : d.Settled) (inside : t ∈ d.tgtDevs) :
    Answers env d t c (scstPersistentReserveOutLocal env d t c) := by
  unfold scstPersistentReserveOutLocal
  cases tid : t.transportId with
  | none => exact refuse_answers Status.noConfusion
  | some own =>
    simp only
    split
    · exact refuse_answers Status.noConfusion
    split
    · exact refuse_answers Status.noConfusion
    split
    · exact .served .idle
    cases through : precheck t c with
    | some status => exact refuse_answers (precheck_failed through)
    | none =>
      simp only
      split
      · exact refuse_answers Status.noConfusion
      · obtain ⟨reg, found, finds⟩ := reg_finds ok inside
        rw [found]
        exact serve_answers ok settled tid finds through

end

end Ldd3.Pres
