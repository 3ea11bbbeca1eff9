import Ldd3.Pres.Effects

/-!
Sessions come and go. `scst_alloc_add_tgt_dev` gives a new nexus its registrant before it puts it on the
list of nexuses, `scst_free_tgt_dev` takes it off the list before it takes the registrant away. Both run
under `scst_mutex`, so one nexus at a time is off the list; commands only need `dev_pr_mutex` and come
between.
-/

namespace Ldd3.Pres

/-- `reg->tgt_dev = t` -/
def Registrant.assign (p : Nat) (t : Option Nat) (r : Registrant) : Registrant :=
  if r.ref = p then { r with tgtDev := t } else r

/-- `t->registrant = reg; reg->tgt_dev = t` -/
def link (d : Device) (i p : Nat) : Device :=
  { d with
    tgtDevs := d.tgtDevs.map (TgtDev.point (some i) (some p))
    devRegistrantsList := d.devRegistrantsList.map (Registrant.assign p (some i)) }

/-- `t->registrant = NULL; reg->tgt_dev = NULL` -/
def unlink (d : Device) (i p : Nat) : Device :=
  { d with
    tgtDevs := d.tgtDevs.map (TgtDev.point (some i) none)
    devRegistrantsList := d.devRegistrantsList.map (Registrant.assign p none) }

def scstPrInitTgtDev (d : Device) (t : TgtDev) : Device :=
  let d := { d with tgtDevs := d.tgtDevs ++ [t] }
  if t.transportId.isNone then d
  else
    match scstPrFindReg d t.transportId t.relTgtId with
    | none => d
    | some reg => if reg.tgtDev.isNone then link d t.id reg.ref else d

/-- The nexus that takes a registrant over. -/
def heir (d : Device) (i : Nat) (reg : Registrant) : Option TgtDev :=
  d.tgtDevs.find? fun t =>
    t.listed && t.id ≠ i && t.relTgtId == reg.relTgtId && tidEqual t.transportId (some reg.transportId)

def scstPrClearTgtDev (d : Device) (t : TgtDev) : Except Fault Device :=
  match t.registrant with
  | none => .ok d
  | some p =>
    match d.reg p with
    | none => .error .registrant
    | some reg =>
      let d := unlink d t.id p
      match heir d t.id reg with
      | none => .ok d
      | some t' => .ok (link d t'.id p)

/-- `scst_alloc_add_tgt_dev` up to the list. -/
def attach (d : Device) (t : TgtDev) : Option Device :=
  if t.transportId.isNone then
    if d.devRegistrantsList ≠ [] then none
    else some (scstPrInitTgtDev { d with notPrSupportingTgtDevsNum := d.notPrSupportingTgtDevsNum + 1 } t)
  else some (scstPrInitTgtDev d t)

/-- `dev->not_pr_supporting_tgt_devs_num--` -/
def discount (d : Device) : Device := { d with notPrSupportingTgtDevsNum := d.notPrSupportingTgtDevsNum - 1 }

def TgtDev.list (i : Nat) (listed : Bool) (x : TgtDev) : TgtDev := if x.id = i then { x with listed := listed } else x

/-- `list_add_tail(&tgt_dev->dev_tgt_dev_list_entry, &dev->dev_tgt_dev_list)` -/
def enlist (d : Device) (t : TgtDev) : Device :=
  { d with tgtDevs :=
      (d.tgtDevs.filter fun x => x.id ≠ t.id) ++ (d.tgtDevs.filter fun x => x.id = t.id).map (TgtDev.list t.id true) }

/-- `list_del(&tgt_dev->dev_tgt_dev_list_entry)` -/
def delist (d : Device) (t : TgtDev) : Device := { d with tgtDevs := d.tgtDevs.map (TgtDev.list t.id false) }

/-- `kmem_cache_free(scst_tgtd_cachep, tgt_dev)` -/
def free (d : Device) (t : TgtDev) : Device := { d with tgtDevs := d.tgtDevs.filter fun x => x.id ≠ t.id }

/-! ### Links -/

@[simp] theorem assign_ref (p : Nat) (t : Option Nat) (r : Registrant) : (r.assign p t).ref = r.ref := by
  unfold Registrant.assign
  split <;> rfl

theorem assign_at {p : Nat} {t : Option Nat} {r : Registrant} (here : r.ref = p) :
    r.assign p t = { r with tgtDev := t } := if_pos here

theorem assign_off {p : Nat} {t : Option Nat} {r : Registrant} (off : r.ref ≠ p) : r.assign p t = r := if_neg off

@[simp] theorem assign_transportId (p : Nat) (t : Option Nat) (r : Registrant) :
    (r.assign p t).transportId = r.transportId := by
  unfold Registrant.assign
  split <;> rfl

@[simp] theorem assign_relTgtId (p : Nat) (t : Option Nat) (r : Registrant) :
    (r.assign p t).relTgtId = r.relTgtId := by
  unfold Registrant.assign
  split <;> rfl

@[simp] theorem assign_key (p : Nat) (t : Option Nat) (r : Registrant) : (r.assign p t).key = r.key := by
  unfold Registrant.assign
  split <;> rfl

@[simp] theorem assign_rollbackKey (p : Nat) (t : Option Nat) (r : Registrant) :
    (r.assign p t).rollbackKey = r.rollbackKey := by
  unfold Registrant.assign
  split <;> rfl

@[simp] theorem assign_matches (p : Nat) (t : Option Nat) (r : Registrant) (tid : Option TransportId) (rel : UInt16) :
    (r.assign p t).Matches tid rel ↔ r.Matches tid rel := by
  unfold Registrant.Matches
  rw [assign_transportId, assign_relTgtId]

theorem refs_assign (regs : List Registrant) (p : Nat) (t : Option Nat) :
    (regs.map (Registrant.assign p t)).map Registrant.ref = regs.map Registrant.ref := by
  simp [Function.comp_def]

namespace Registry

variable {regs : List Registrant} {tgtDevs : List TgtDev}

/-- A new nexus without a registrant. -/
theorem attach (registry : Registry regs tgtDevs) {t : TgtDev} (fresh : t.id ∉ tgtDevs.map TgtDev.id)
    (full : ∀ tid, t.transportId = some tid → tid.Full) (bare : t.registrant = none) :
    Registry regs (tgtDevs ++ [t]) where
  refs := registry.refs
  keys := registry.keys
  apart := registry.apart
  ids := by
    rw [List.map_append, List.map_singleton]
    exact List.nodup_append'.mpr ⟨registry.ids, List.nodup_singleton _, List.disjoint_singleton.mpr fresh⟩
  full x inside := by
    rcases List.mem_append.mp inside with old | new
    · exact registry.full x old
    · rw [List.mem_singleton.mp new]
      exact full
  linked x inside p points := by
    rcases List.mem_append.mp inside with old | new
    · exact registry.linked x old p points
    · rw [List.mem_singleton.mp new, bare] at points
      cases points
  back r known i own := by
    obtain ⟨x, inside, rest⟩ := registry.back r known i own
    exact ⟨x, List.mem_append_left _ inside, rest⟩

theorem free (registry : Registry regs tgtDevs) {t : TgtDev} (inside : t ∈ tgtDevs) (bare : t.registrant = none) :
    Registry regs (tgtDevs.filter fun x => x.id ≠ t.id) where
  refs := registry.refs
  keys := registry.keys
  apart := registry.apart
  ids := registry.ids.sublist (List.filter_sublist.map _)
  full x kept := registry.full x (List.mem_filter.mp kept).1
  linked x kept := registry.linked x (List.mem_filter.mp kept).1
  back r known i own := by
    obtain ⟨x, known', id', points, fits⟩ := registry.back r known i own
    refine ⟨x, List.mem_filter.mpr ⟨known', decide_eq_true fun same => ?_⟩, id', points, fits⟩
    rw [registry.tgtDev_eq known' inside same, bare] at points
    cases points

/-- The nexuses in another order, on the list or off it. -/
theorem relist (registry : Registry regs tgtDevs) {f : TgtDev → TgtDev} {tgtDevs' : List TgtDev}
    (same : ∀ t, (f t).id = t.id ∧ (f t).transportId = t.transportId ∧ (f t).relTgtId = t.relTgtId ∧
      (f t).registrant = t.registrant)
    (order : tgtDevs'.Perm (tgtDevs.map f)) : Registry regs tgtDevs' where
  refs := registry.refs
  keys := registry.keys
  apart := registry.apart
  ids := by
    refine (order.map TgtDev.id).nodup_iff.mpr ?_
    have ids : (tgtDevs.map f).map TgtDev.id = tgtDevs.map TgtDev.id := by
      rw [List.map_map]
      exact List.map_congr_left fun t _ => (same t).1
    rw [ids]
    exact registry.ids
  full x inside := by
    obtain ⟨t, before, rfl⟩ := List.mem_map.mp (order.subset inside)
    rw [(same t).2.1]
    exact registry.full t before
  linked x inside p points := by
    obtain ⟨t, before, rfl⟩ := List.mem_map.mp (order.subset inside)
    rw [(same t).2.2.2] at points
    rw [(same t).1]
    exact registry.linked t before p points
  back r known i own := by
    obtain ⟨t, before, id', points, fits⟩ := registry.back r known i own
    obtain ⟨id'', tid, rel, registrant⟩ := same t
    refine ⟨f t, order.symm.subset (List.mem_map_of_mem before), id''.trans id', registrant.trans points, ?_⟩
    rw [tid, rel]
    exact fits

theorem unlink (registry : Registry regs tgtDevs) {i : Nat} {reg : Registrant} (mem : reg ∈ regs)
    (own : reg.tgtDev = some i) :
    Registry (regs.map (Registrant.assign reg.ref none)) (tgtDevs.map (TgtDev.point (some i) none)) where
  refs := by
    rw [refs_assign]
    exact registry.refs
  keys r' known' := by
    obtain ⟨r, known, rfl⟩ := List.mem_map.mp known'
    rw [assign_key]
    exact registry.keys r known
  apart := by
    refine List.pairwise_map.mpr (registry.apart.imp fun {r r'} apart => ?_)
    rw [assign_matches, assign_transportId, assign_relTgtId]
    exact apart
  ids := by
    rw [ids_point]
    exact registry.ids
  full := registry.full_point _ _
  linked x inside p points := by
    obtain ⟨y, before, rfl⟩ := List.mem_map.mp inside
    by_cases here : some y.id = some i
    · rw [point_at here] at points
      cases points
    · rw [point_off here] at points ⊢
      obtain ⟨r, known, ref, own'⟩ := registry.linked y before p points
      refine ⟨r.assign reg.ref none, List.mem_map_of_mem known, (assign_ref _ _ _).trans ref, ?_⟩
      rw [assign_off, own']
      intro same
      rw [registry.reg_eq known mem same, own] at own'
      exact here own'.symm
  back r' known' j own' := by
    obtain ⟨r, known, rfl⟩ := List.mem_map.mp known'
    by_cases same : r.ref = reg.ref
    · rw [assign_at same] at own'
      cases own'
    · rw [assign_off same] at own' ⊢
      obtain ⟨x, inside, rfl, points, fits⟩ := registry.back r known j own'
      refine ⟨x.point (some i) none, List.mem_map_of_mem inside, point_id _ _ _, ?_, by simpa using fits⟩
      rw [point_off, points]
      intro here
      obtain ⟨x', inside', id', points', _⟩ := registry.back reg mem i own
      rw [registry.tgtDev_eq inside' inside (id'.trans (Option.some.inj here).symm), points] at points'
      exact same (Option.some.inj points')

theorem link (registry : Registry regs tgtDevs) {t : TgtDev} (inside : t ∈ tgtDevs) (bare : t.registrant = none)
    {reg : Registrant} (mem : reg ∈ regs) (orphan : reg.tgtDev = none) (fits : reg.Matches t.transportId t.relTgtId) :
    Registry (regs.map (Registrant.assign reg.ref (some t.id)))
      (tgtDevs.map (TgtDev.point (some t.id) (some reg.ref))) where
  refs := by
    rw [refs_assign]
    exact registry.refs
  keys r' known' := by
    obtain ⟨r, known, rfl⟩ := List.mem_map.mp known'
    rw [assign_key]
    exact registry.keys r known
  apart := by
    refine List.pairwise_map.mpr (registry.apart.imp fun {r r'} apart => ?_)
    rw [assign_matches, assign_transportId, assign_relTgtId]
    exact apart
  ids := by
    rw [ids_point]
    exact registry.ids
  full := registry.full_point _ _
  linked x now p points := by
    obtain ⟨y, before, rfl⟩ := List.mem_map.mp now
    by_cases here : some y.id = some t.id
    · rw [point_at here] at points
      refine ⟨reg.assign reg.ref (some t.id), List.mem_map_of_mem mem, ?_, ?_⟩
      · rw [assign_ref]
        exact Option.some.inj points
      · rw [assign_at rfl, point_id]
        exact here.symm
    · rw [point_off here] at points ⊢
      obtain ⟨r, known, ref, own⟩ := registry.linked y before p points
      refine ⟨r.assign reg.ref (some t.id), List.mem_map_of_mem known, (assign_ref _ _ _).trans ref, ?_⟩
      rw [assign_off, own]
      intro same
      rw [registry.reg_eq known mem same, orphan] at own
      cases own
  back r' known' j own := by
    obtain ⟨r, known, rfl⟩ := List.mem_map.mp known'
    by_cases same : r.ref = reg.ref
    · cases registry.reg_eq known mem same
      rw [assign_at rfl] at own
      cases own
      refine ⟨t.point (some t.id) (some reg.ref), List.mem_map_of_mem inside, point_id _ _ _, ?_, ?_⟩
      · rw [point_at rfl, assign_ref]
      · rw [assign_matches, point_transportId, point_relTgtId]
        exact fits
    · rw [assign_off same] at own ⊢
      obtain ⟨x, inside', rfl, points, fits'⟩ := registry.back r known j own
      refine ⟨x.point (some t.id) (some reg.ref), List.mem_map_of_mem inside', point_id _ _ _, ?_, by simpa using fits'⟩
      rw [point_off, points]
      intro here
      rw [registry.tgtDev_eq inside' inside (Option.some.inj here), bare] at points
      cases points

/-- A nexus that matches a registrant without a nexus has no registrant. -/
theorem bare (registry : Registry regs tgtDevs) {t : TgtDev} (inside : t ∈ tgtDevs) {reg : Registrant}
    (mem : reg ∈ regs) (orphan : reg.tgtDev = none) (fits : reg.Matches t.transportId t.relTgtId) :
    t.registrant = none := by
  by_contra some
  obtain ⟨p, points⟩ := Option.ne_none_iff_exists'.mp some
  obtain ⟨r, known, ref, own⟩ := registry.linked t inside p points
  rw [registry.unpointed inside fits (registry.alone mem) points] at ref
  rw [registry.reg_eq known mem ref, orphan] at own
  cases own

end Registry

theorem Reserved.assign {d : Device} (reserved : Reserved d) (p : Nat) (t : Option Nat) (tgtDevs : List TgtDev) :
    Reserved { d with tgtDevs := tgtDevs, devRegistrantsList := d.devRegistrantsList.map (Registrant.assign p t) } := by
  have keeps : d.devRegistrantsList.map Registrant.ref ⊆
      (d.devRegistrantsList.map (Registrant.assign p t)).map Registrant.ref := by
    rw [refs_assign]
    exact List.Subset.refl _
  have kept := reserved.mono keeps
  exact ⟨kept.free, kept.held, kept.holder⟩

theorem Device.Settled.assign {d : Device} (settled : d.Settled) (p : Nat) (t : Option Nat) :
    ∀ r ∈ d.devRegistrantsList.map (Registrant.assign p t), r.rollbackKey = 0 := by
  intro r' known'
  obtain ⟨r, known, rfl⟩ := List.mem_map.mp known'
  rw [assign_rollbackKey]
  exact settled r known

theorem list_same (i : Nat) (listed : Bool) (x : TgtDev) :
    (x.list i listed).id = x.id ∧ (x.list i listed).transportId = x.transportId ∧
      (x.list i listed).relTgtId = x.relTgtId ∧ (x.list i listed).registrant = x.registrant := by
  unfold TgtDev.list
  split <;> exact ⟨rfl, rfl, rfl, rfl⟩

/-- Everything that a command may rely on. -/
def Device.Safe (d : Device) : Prop := d.Ok ∧ d.Settled

namespace Device.Safe

variable {d : Device}

theorem tgtDevs (safe : d.Safe) {tgtDevs : List TgtDev} (registry : Registry d.devRegistrantsList tgtDevs) :
    { d with tgtDevs := tgtDevs }.Safe :=
  ⟨⟨registry, safe.1.reserved.free, safe.1.reserved.held, safe.1.reserved.holder⟩, safe.2⟩

theorem count (safe : d.Safe) (n : Nat) : { d with notPrSupportingTgtDevsNum := n }.Safe :=
  ⟨⟨safe.1.registry, safe.1.reserved.free, safe.1.reserved.held, safe.1.reserved.holder⟩, safe.2⟩

theorem link (safe : d.Safe) {t : TgtDev} (inside : t ∈ d.tgtDevs) (bare : t.registrant = none) {reg : Registrant}
    (mem : reg ∈ d.devRegistrantsList) (orphan : reg.tgtDev = none) (fits : reg.Matches t.transportId t.relTgtId) :
    (Pres.link d t.id reg.ref).Safe :=
  ⟨⟨safe.1.registry.link inside bare mem orphan fits, safe.1.reserved.assign _ _ _⟩, safe.2.assign _ _⟩

theorem unlink (safe : d.Safe) {i : Nat} {reg : Registrant} (mem : reg ∈ d.devRegistrantsList)
    (own : reg.tgtDev = some i) : (Pres.unlink d i reg.ref).Safe :=
  ⟨⟨safe.1.registry.unlink mem own, safe.1.reserved.assign _ _ _⟩, safe.2.assign _ _⟩

theorem initTgtDev (safe : d.Safe) {t : TgtDev} (fresh : t.id ∉ d.tgtDevs.map TgtDev.id)
    (full : ∀ tid, t.transportId = some tid → tid.Full) (bare : t.registrant = none) :
    (scstPrInitTgtDev d t).Safe := by
  have here := safe.tgtDevs (safe.1.registry.attach fresh full bare)
  simp only [scstPrInitTgtDev]
  split
  · exact here
  · cases found : scstPrFindReg { d with tgtDevs := d.tgtDevs ++ [t] } t.transportId t.relTgtId with
    | none => exact here
    | some reg =>
      obtain ⟨mem, fits⟩ := findReg_some found
      simp only
      split
      · rename_i orphan
        exact here.link (List.mem_append_right _ (List.mem_singleton_self t)) bare mem (Option.isNone_iff_eq_none.mp orphan) fits
      · exact here

/-- Clearing a nexus does not follow a pointer that leads nowhere, and no registrant points to it afterwards. -/
theorem clearTgtDev (safe : d.Safe) {t : TgtDev} (inside : t ∈ d.tgtDevs) :
    ∃ d', scstPrClearTgtDev d t = .ok d' ∧ d'.Safe ∧ ∃ t' ∈ d'.tgtDevs, t'.id = t.id ∧ t'.registrant = none := by
  unfold scstPrClearTgtDev
  cases points : t.registrant with
  | none => exact ⟨d, rfl, safe, t, inside, rfl, points⟩
  | some p =>
    obtain ⟨r, known, rfl, own⟩ := safe.1.registry.linked t inside p points
    obtain ⟨reg, found⟩ := reg_of_mem (List.mem_map_of_mem known)
    obtain ⟨mem, same⟩ := reg_mem found
    cases safe.1.registry.reg_eq mem known same
    have cut := safe.unlink known own
    have gone : t.point (some t.id) none ∈ (Pres.unlink d t.id r.ref).tgtDevs := List.mem_map_of_mem inside
    simp only [found]
    cases next : heir (Pres.unlink d t.id r.ref) t.id r with
    | none => exact ⟨_, rfl, cut, _, gone, point_id _ _ _, by rw [point_at rfl]⟩
    | some t' =>
      have inside' := List.mem_of_find?_eq_some next
      have fits := List.find?_some next
      simp only [Bool.and_eq_true, beq_iff_eq, decide_eq_true_eq] at fits
      have orphan : r.assign r.ref none ∈ (Pres.unlink d t.id r.ref).devRegistrantsList :=
        List.mem_map_of_mem known
      have none' : (r.assign r.ref none).tgtDev = none := by rw [assign_at rfl]
      have matched : (r.assign r.ref none).Matches t'.transportId t'.relTgtId := by
        rw [assign_matches]
        exact ⟨fits.1.2.symm, tidEqual_symm fits.2⟩
      have bare := cut.1.registry.bare inside' orphan none' matched
      have linked := cut.link inside' bare orphan none' matched
      rw [assign_ref] at linked
      refine ⟨_, rfl, linked, (t.point (some t.id) none).point (some t'.id) (some r.ref), List.mem_map_of_mem gone, ?_, ?_⟩
      · rw [point_id, point_id]
      · rw [point_off, point_at rfl]
        rw [point_id]
        exact fun here => fits.1.1.2 (Option.some.inj here).symm

theorem free (safe : d.Safe) {t : TgtDev} (inside : t ∈ d.tgtDevs) (bare : t.registrant = none) : (Pres.free d t).Safe :=
  safe.tgtDevs (safe.1.registry.free inside bare)

theorem enlist (safe : d.Safe) (t : TgtDev) : (Pres.enlist d t).Safe := by
  refine safe.tgtDevs (safe.1.registry.relist (list_same t.id true) ?_)
  have others : (d.tgtDevs.filter fun x => x.id ≠ t.id).map (TgtDev.list t.id true) =
      d.tgtDevs.filter fun x => x.id ≠ t.id := by
    refine (List.map_congr_left fun x other => ?_).trans (List.map_id _)
    exact if_neg (of_decide_eq_true (List.mem_filter.mp other).2)
  have order := (List.filter_append_perm (fun x : TgtDev => decide (x.id ≠ t.id)) d.tgtDevs).map (TgtDev.list t.id true)
  rw [List.map_append, others] at order
  simpa using order

theorem delist (safe : d.Safe) (t : TgtDev) : (Pres.delist d t).Safe :=
  safe.tgtDevs (safe.1.registry.relist (list_same t.id false) (List.Perm.refl _))

end Device.Safe

end Ldd3.Pres
