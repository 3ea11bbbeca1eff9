import Mathlib.Data.Finmap

/-!
Finite heaps described cell by cell. `Holds h cells` says that the heap `h` consists of exactly the
listed cells, at distinct addresses. The list stands for a separating conjunction: the rules for
allocating, storing and freeing work on one cell anywhere in it and leave the rest alone.
-/

namespace Base.Heap

variable {κ β : Type*} [DecidableEq κ] {h : Finmap fun _ : κ => β} {before after : List (κ × β)} {a : κ} {b : β}

structure Holds (h : Finmap fun _ : κ => β) (cells : List (κ × β)) : Prop where
  distinct : (cells.map Prod.fst).Nodup
  exact : ∀ a b, h.lookup a = some b ↔ (a, b) ∈ cells

theorem holds_empty : Holds (∅ : Finmap fun _ : κ => β) [] :=
  ⟨List.nodup_nil, fun a b => by simp⟩

theorem Holds.eq_empty (holds : Holds h []) : h = ∅ := by
  apply Finmap.ext_lookup
  intro a
  rw [Finmap.lookup_empty, Option.eq_none_iff_forall_ne_some]
  intro b found
  exact List.not_mem_nil ((holds.exact a b).mp found)

theorem Holds.perm {cells cells' : List (κ × β)} (holds : Holds h cells) (same : cells.Perm cells') :
    Holds h cells' :=
  ⟨(same.map _).nodup_iff.mp holds.distinct, fun a b => (holds.exact a b).trans same.mem_iff⟩

theorem Holds.mem_iff {cells : List (κ × β)} (holds : Holds h cells) : a ∈ h ↔ a ∈ cells.map Prod.fst := by
  rw [Finmap.mem_iff]
  refine ⟨fun found => ?_, fun listed => ?_⟩
  · obtain ⟨b, found⟩ := found
    exact List.mem_map.mpr ⟨(a, b), (holds.exact a b).mp found, rfl⟩
  · obtain ⟨⟨a', b⟩, member, rfl⟩ := List.mem_map.mp listed
    exact ⟨b, (holds.exact a' b).mpr member⟩

theorem Holds.card {cells : List (κ × β)} (holds : Holds h cells) : h.keys.card = cells.length := by
  have same : h.keys = (cells.map Prod.fst).toFinset := by
    ext a
    rw [Finmap.mem_keys, holds.mem_iff, List.mem_toFinset]
  rw [same, List.toFinset_card_of_nodup holds.distinct, List.length_map]

theorem exists_holds (h : Finmap fun _ : κ => β) : ∃ cells, Holds h cells := by
  induction h using Finmap.induction_on with
  | H entries =>
    have keys : (entries.entries.map fun e => (e.1, e.2)).map Prod.fst = entries.keys := by
      rw [List.map_map]
      rfl
    refine ⟨entries.entries.map fun e => (e.1, e.2), ⟨?_, ?_⟩⟩
    · rw [keys]
      exact entries.keys_nodup
    · intro a b
      rw [Finmap.lookup_toFinmap, ← Option.mem_def, AList.mem_lookup_iff]
      simp only [List.mem_map, Prod.mk.injEq]
      constructor
      · exact fun member => ⟨⟨a, b⟩, member, rfl, rfl⟩
      · rintro ⟨⟨a', b'⟩, member, rfl, rfl⟩
        exact member

/-- Cells that are found at distinct addresses are part of the heap; `others` is the frame. -/
theorem holds_frame {cells : List (κ × β)} (distinct : (cells.map Prod.fst).Nodup)
    (found : ∀ c ∈ cells, h.lookup c.1 = some c.2) : ∃ others, Holds h (cells ++ others) := by
  induction cells with
  | nil => exact exists_holds h
  | cons c cells ih =>
    rw [List.map_cons, List.nodup_cons] at distinct
    obtain ⟨others, holds⟩ := ih distinct.2 fun c member => found c (List.mem_cons_of_mem _ member)
    have listed : c ∈ cells ++ others := (holds.exact c.1 c.2).mp (found c List.mem_cons_self)
    have framed : c ∈ others := (List.mem_append.mp listed).resolve_left fun member =>
      distinct.1 (List.mem_map.mpr ⟨c, member, rfl⟩)
    obtain ⟨before, after, rfl⟩ := List.append_of_mem framed
    refine ⟨before ++ after, holds.perm ?_⟩
    rw [← List.append_assoc, List.cons_append, ← List.append_assoc]
    exact List.perm_middle

theorem Holds.lookup (holds : Holds h (before ++ (a, b) :: after)) : h.lookup a = some b :=
  (holds.exact a b).mpr (List.mem_append_right _ List.mem_cons_self)

theorem Holds.distinct_middle (holds : Holds h (before ++ (a, b) :: after)) :
    (((a, b) :: (before ++ after)).map Prod.fst).Nodup :=
  (List.perm_middle.map Prod.fst).nodup_iff.mp holds.distinct

theorem Holds.unique {b' : β} (holds : Holds h (before ++ (a, b) :: after)) (member : (a, b') ∈ before ++ after) :
    False :=
  (List.nodup_cons.mp holds.distinct_middle).1 (List.mem_map.mpr ⟨(a, b'), member, rfl⟩)

theorem Holds.alloc (holds : Holds h (before ++ after)) (fresh : a ∉ h) (b : β) :
    Holds (h.insert a b) (before ++ (a, b) :: after) := by
  refine Holds.perm (?_ : Holds _ ((a, b) :: (before ++ after))) List.perm_middle.symm
  refine ⟨List.nodup_cons.mpr ⟨fun listed => fresh (holds.mem_iff.mpr listed), holds.distinct⟩, ?_⟩
  intro a' b'
  by_cases same : a' = a
  · subst a'
    have absent : (a, b') ∉ before ++ after := fun member =>
      fresh (Finmap.mem_iff.mpr ⟨b', (holds.exact a b').mpr member⟩)
    rw [Finmap.lookup_insert, List.mem_cons]
    simp [absent, eq_comm]
  · rw [Finmap.lookup_insert_of_ne _ same, holds.exact a' b', List.mem_cons]
    simp [same]

theorem Holds.free (holds : Holds h (before ++ (a, b) :: after)) : Holds (h.erase a) (before ++ after) := by
  refine ⟨(List.nodup_cons.mp holds.distinct_middle).2, ?_⟩
  intro a' b'
  by_cases same : a' = a
  · subst a'
    rw [Finmap.lookup_erase]
    exact ⟨fun found => (Option.some_ne_none _ found.symm).elim, fun member => (holds.unique member).elim⟩
  · rw [Finmap.lookup_erase_ne same, holds.exact a' b', List.perm_middle.mem_iff, List.mem_cons]
    simp [same]

theorem Holds.store (holds : Holds h (before ++ (a, b) :: after)) (b' : β) :
    Holds (h.insert a b') (before ++ (a, b') :: after) := by
  have replaced : h.insert a b' = (h.erase a).insert a b' := by
    apply Finmap.ext_lookup
    intro x
    by_cases same : x = a
    · rw [same, Finmap.lookup_insert, Finmap.lookup_insert]
    · rw [Finmap.lookup_insert_of_ne _ same, Finmap.lookup_insert_of_ne _ same, Finmap.lookup_erase_ne same]
  rw [replaced]
  apply holds.free.alloc
  rw [Finmap.mem_erase]
  exact fun still => still.1 rfl

end Base.Heap
