import Mathlib.Data.List.Induction
import Mathlib.Data.List.Infix

/-!
Runs of calls. A run of calls that all complete keeps what each of them keeps. A machine answers a
call and moves on, or stops with an error; a specification always answers. When related states answer
every permitted call alike and stay related, a run of permitted calls never stops and gives the
answers of the specification.
-/

namespace Base.Runs

variable {σ τ κ α ε : Type*}

theorem bind_ok {α β : Type} {x : Except ε α} {f : α → Except ε β} {b : β} (h : x >>= f = .ok b) :
    ∃ a, x = .ok a ∧ f a = .ok b := by
  cases x with
  | error => cases h
  | ok a => exact ⟨a, rfl, h⟩

theorem foldlM_invariant {step : σ → κ → Option σ} {I : σ → Prop}
    (keeps : ∀ s k s', I s → step s k = some s' → I s') {calls : List κ} {s s' : σ} (start : I s)
    (ran : calls.foldlM step s = some s') : I s' := by
  induction calls generalizing s with
  | nil => cases ran; exact start
  | cons k calls ih =>
    rw [List.foldlM_cons] at ran
    obtain ⟨middle, stepped, rest⟩ := Option.bind_eq_some_iff.mp ran
    exact ih (keeps s k middle start stepped) rest

theorem foldlM_snoc (step : σ → κ → Option σ) (s : σ) (prior : List κ) (k : κ) :
    (prior ++ [k]).foldlM step s = (prior.foldlM step s).bind fun s' => step s' k := by
  simp only [List.foldlM_append, List.foldlM_cons, List.foldlM_nil]
  cases prior.foldlM step s with
  | none => rfl
  | some s' => cases stepped : step s' k <;> simp [stepped]

/-- If whether `I` holds after a call is decided before it, then `I` holds after every prefix of a
run exactly if every call of the run is one that decides for it. -/
theorem always_iff {step : σ → κ → Option σ} {W I : σ → Prop} {ok : σ → κ → Prop}
    (keeps : ∀ s k s', W s → step s k = some s' → W s')
    (decides : ∀ s k s', W s → step s k = some s' → (I s' ↔ ok s k)) {s : σ} (within : W s) (start : I s)
    (calls : List κ) :
    (∀ prior s', prior <+: calls → prior.foldlM step s = some s' → I s') ↔
      ∀ prior k s' s'', prior ++ [k] <+: calls → prior.foldlM step s = some s' → step s' k = some s'' → ok s' k := by
  constructor
  · intro always prior k s' s'' isPrefix ran stepped
    refine (decides s' k s'' (foldlM_invariant keeps within ran) stepped).mp (always _ _ isPrefix ?_)
    rw [foldlM_snoc, ran, Option.bind_some, stepped]
  · intro each prior s' isPrefix ran
    cases prior using List.reverseRecOn with
    | nil =>
      cases ran
      exact start
    | append_singleton prior k =>
      rw [foldlM_snoc] at ran
      obtain ⟨middle, before, stepped⟩ := Option.bind_eq_some_iff.mp ran
      refine (decides middle k s' (foldlM_invariant keeps within before) stepped).mpr ?_
      exact each prior k middle s' isPrefix before stepped

def run (step : σ → κ → Except ε (α × σ)) : σ → List κ → Except ε (List α × σ)
  | s, [] => .ok ([], s)
  | s, call :: calls => do
    let (answer, s) ← step s call
    let (answers, s) ← run step s calls
    return (answer :: answers, s)

def answer (spec : τ → κ → α × τ) : τ → List κ → List α × τ
  | t, [] => ([], t)
  | t, call :: calls =>
    let (first, t) := spec t call
    let (rest, t) := answer spec t calls
    (first :: rest, t)

/-- Every call is permitted in the state that it is made in. -/
def Along (spec : τ → κ → α × τ) (permits : τ → κ → Prop) : τ → List κ → Prop
  | _, [] => True
  | t, call :: calls => permits t call ∧ Along spec permits (spec t call).2 calls

instance Along.decidable {spec : τ → κ → α × τ} {permits : τ → κ → Prop} [∀ t call, Decidable (permits t call)]
    (t : τ) : (calls : List κ) → Decidable (Along spec permits t calls)
  | [] => .isTrue trivial
  | call :: calls =>
    have : Decidable (Along spec permits (spec t call).2 calls) := Along.decidable _ calls
    inferInstanceAs (Decidable (permits t call ∧ Along spec permits (spec t call).2 calls))

section Simulation

variable {step : σ → κ → Except ε (α × σ)} {spec : τ → κ → α × τ} {permits : τ → κ → Prop} {Related : σ → τ → Prop}

def Simulates (step : σ → κ → Except ε (α × σ)) (spec : τ → κ → α × τ) (permits : τ → κ → Prop)
    (Related : σ → τ → Prop) : Prop :=
  ∀ s t call, Related s t → permits t call →
    ∃ s', step s call = .ok ((spec t call).1, s') ∧ Related s' (spec t call).2

theorem Simulates.run (simulates : Simulates step spec permits Related) {s : σ} {t : τ} (related : Related s t)
    {calls : List κ} (along : Along spec permits t calls) :
    ∃ s', run step s calls = .ok ((answer spec t calls).1, s') ∧ Related s' (answer spec t calls).2 := by
  induction calls generalizing s t with
  | nil => exact ⟨s, rfl, related⟩
  | cons call calls ih =>
    obtain ⟨permitted, later⟩ := along
    obtain ⟨s₁, stepped, related₁⟩ := simulates s t call related permitted
    obtain ⟨s₂, ran, related₂⟩ := ih related₁ later
    refine ⟨s₂, ?_, related₂⟩
    rw [Runs.run, stepped]
    simp only [bind, Except.bind, ran]
    rfl

end Simulation

end Base.Runs
