import Ldd3.Base.Runs

/-!
Stores that are meant as queues. A completed call gives some items out and takes some in; a `Flow`
is a state together with all that was given out and taken in so far. The queue law is that what was
given out, followed by what is held, is what was taken in.

A store is usually lawful only from its good states and only for calls that do not lose items. Then
the law holds after every prefix of a run exactly if no call of the run loses.
-/

namespace Base.Fifo

variable {σ κ α : Type*}

structure Outcome (σ α : Type*) where
  state : σ
  out : List α
  inn : List α

structure Pipe (σ κ α : Type*) where
  call : σ → κ → Option (Outcome σ α)
  held : σ → List α

structure Flow (σ α : Type*) where
  state : σ
  given : List α
  taken : List α

variable (P : Pipe σ κ α)

def step (f : Flow σ α) (k : κ) : Option (Flow σ α) :=
  (P.call f.state k).map fun done => ⟨done.state, f.given ++ done.out, f.taken ++ done.inn⟩

def run (f : Flow σ α) (calls : List κ) : Option (Flow σ α) := calls.foldlM (step P) f

def Law (f : Flow σ α) : Prop := f.given ++ P.held f.state = f.taken

def Never (loses : σ → κ → Prop) (f : Flow σ α) (calls : List κ) : Prop :=
  ∀ prior k g, prior ++ [k] <+: calls → run P f prior = some g → ¬ loses g.state k

structure Lawful (good : σ → Prop) (loses : σ → κ → Prop) : Prop where
  good_step : ∀ {s k done}, good s → ¬ loses s k → P.call s k = some done → good done.state
  keeps : ∀ {s k done}, good s → ¬ loses s k → P.call s k = some done →
    P.held s ++ done.inn = done.out ++ P.held done.state
  broken : ∀ {s k}, good s → loses s k → ∃ done, P.call s k = some done ∧
    P.held s ++ done.inn ≠ done.out ++ P.held done.state

variable {P} {good : σ → Prop} {loses : σ → κ → Prop} {f g : Flow σ α} {calls prior : List κ}

theorem run_snoc (f : Flow σ α) (prior : List κ) (k : κ) :
    run P f (prior ++ [k]) = (run P f prior).bind fun g => step P g k :=
  Runs.foldlM_snoc (step P) f prior k

theorem Never.initial (never : Never P loses f calls) (within : prior <+: calls) :
    Never P loses f prior :=
  fun p k g inner => never p k g (inner.trans within)

theorem never_cons {k : κ} (here : ¬ loses f.state k)
    (later : ∀ g, step P f k = some g → Never P loses g calls) : Never P loses f (k :: calls) := by
  intro prior j g within ran
  cases prior with
  | nil =>
    cases ran
    rw [(List.cons_prefix_cons.mp within).1]
    exact here
  | cons first prior =>
    obtain ⟨rfl, inner⟩ := List.cons_prefix_cons.mp within
    rw [run, List.foldlM_cons] at ran
    obtain ⟨middle, stepped, rest⟩ := Option.bind_eq_some_iff.mp ran
    exact later middle stepped prior j g inner rest

theorem never_nil : Never P loses f [] := fun prior k _ within =>
  absurd (List.prefix_nil.mp within) (by simp)

theorem law_iff {done : Outcome σ α} (law : Law P f) :
    Law P ⟨done.state, f.given ++ done.out, f.taken ++ done.inn⟩ ↔
      P.held f.state ++ done.inn = done.out ++ P.held done.state := by
  unfold Law at law ⊢
  rw [← law, List.append_assoc, List.append_assoc, List.append_cancel_left_eq, eq_comm]

theorem Lawful.run_law (lawful : Lawful P good loses) (start : good f.state) (law : Law P f)
    (never : Never P loses f calls) (ran : run P f calls = some g) : good g.state ∧ Law P g := by
  induction calls using List.reverseRecOn generalizing g with
  | nil => cases ran; exact ⟨start, law⟩
  | append_singleton prior k ih =>
    rw [run_snoc] at ran
    obtain ⟨middle, before, stepped⟩ := Option.bind_eq_some_iff.mp ran
    obtain ⟨done, called, rfl⟩ := Option.map_eq_some_iff.mp stepped
    obtain ⟨goodMiddle, lawMiddle⟩ := ih (never.initial (List.prefix_append _ _)) before
    have clean := never prior k middle (List.prefix_refl _) before
    exact ⟨lawful.good_step goodMiddle clean called,
      (law_iff lawMiddle).mpr (lawful.keeps goodMiddle clean called)⟩

theorem Lawful.law_iff_never (lawful : Lawful P good loses) (start : good f.state) (law : Law P f) :
    (∀ prior g, prior <+: calls → run P f prior = some g → Law P g) ↔ Never P loses f calls := by
  constructor
  · intro always
    induction calls using List.reverseRecOn with
    | nil => exact never_nil
    | append_singleton earlier last ih =>
      have never := ih fun p g inner => always p g (inner.trans (List.prefix_append _ _))
      intro prior k g within ran lost
      rcases List.prefix_concat_iff.mp within with whole | inner
      · -- the run is clean up to its last call, so that call meets a good state
        obtain ⟨rfl, same⟩ := List.append_inj' whole rfl
        cases same
        obtain ⟨goodNow, lawNow⟩ := lawful.run_law start law never ran
        obtain ⟨done, called, differs⟩ := lawful.broken goodNow lost
        refine differs ((law_iff lawNow).mp (always _ _ (List.prefix_refl _) ?_))
        rw [run_snoc, ran, Option.bind_some, step, called, Option.map_some]
      · exact never prior k g inner ran lost
  · intro never prior g within ran
    exact (lawful.run_law start law (never.initial within) ran).2

end Base.Fifo
