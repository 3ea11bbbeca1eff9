import Mathlib.Data.List.Basic

/-!
Computations that leave a trail. A `Trail` is a computation that can fail and that marks what it does
on the way; the marks it made before a failure stay. Without its marks it is a plain computation, and
a property of all its marks is a property of the marks of each of its steps.
-/

namespace Base.Trails

structure Trail (ε γ α : Type) where
  marks : List γ
  result : Except ε α

variable {ε γ α β : Type}

def mark (c : γ) : Trail ε γ Unit := ⟨[c], .ok ()⟩

def lift (x : Except ε α) : Trail ε γ α := ⟨[], x⟩

def Trail.bind (t : Trail ε γ α) (f : α → Trail ε γ β) : Trail ε γ β :=
  match t.result with
  | .ok a => ⟨t.marks ++ (f a).marks, (f a).result⟩
  | .error e => ⟨t.marks, .error e⟩

instance : Monad (Trail ε γ) where
  pure a := ⟨[], .ok a⟩
  bind := Trail.bind

def All (P : γ → Prop) (t : Trail ε γ α) : Prop := ∀ c ∈ t.marks, P c

variable {P : γ → Prop} {t : Trail ε γ α} {f : α → Trail ε γ β}

/-! ### The computation without its marks -/

@[simp] theorem result_lift (x : Except ε α) : (lift x : Trail ε γ α).result = x := rfl

theorem result_bind {x : Except ε α} {g : α → Except ε β} (first : t.result = x)
    (later : ∀ a, (f a).result = g a) : (t >>= f).result = x >>= g := by
  subst first
  show (Trail.bind t f).result = _
  unfold Trail.bind
  cases t.result with
  | error e => rfl
  | ok a => exact later a

theorem result_mark_bind (c : γ) (f : Unit → Trail ε γ β) : (mark c >>= f).result = (f ()).result := rfl

/-! ### All of its marks -/

@[simp] theorem all_pure (a : α) : All P (pure a : Trail ε γ α) := fun _ member => nomatch member

@[simp] theorem all_lift (x : Except ε α) : All P (lift x : Trail ε γ α) := fun _ member => nomatch member

@[simp] theorem all_mark_iff (c : γ) : All P (mark c : Trail ε γ Unit) ↔ P c := by
  simp [All, mark]

theorem all_bind_iff : All P (t >>= f) ↔ All P t ∧ ∀ a, t.result = .ok a → All P (f a) := by
  show All P (Trail.bind t f) ↔ _
  unfold Trail.bind All
  cases t.result with
  | error e => exact ⟨fun all => ⟨all, fun a same => nomatch same⟩, And.left⟩
  | ok a =>
    simp only [List.mem_append, or_imp, forall_and, Except.ok.injEq, forall_eq']

theorem All.bind (first : All P t) (later : ∀ a, t.result = .ok a → All P (f a)) : All P (t >>= f) :=
  all_bind_iff.mpr ⟨first, later⟩

end Base.Trails
