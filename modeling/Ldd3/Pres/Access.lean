import Ldd3.Pres.Runs

/-!
What a reservation is for: `scst_pr_is_cmd_allowed` decides which commands get through to the device.
Commands are flagged in the table of operation codes if other nexuses may send them under a write
exclusive or under an exclusive access reservation.
-/

namespace Ldd3.Pres

open Base.Steps

/-- `SCST_WRITE_EXCL_ALLOWED` and `SCST_EXCL_ACCESS_ALLOWED` -/
structure OpFlags where
  writeExclAllowed : Bool
  exclAccessAllowed : Bool

def OpFlags.none : OpFlags := ⟨false, false⟩

def scstPrIsCmdAllowed (d : Device) (t : TgtDev) (flags : OpFlags) : Bool :=
  if ¬ d.prIsSet then true
  else if d.prType = typeWriteExclusive then
    (t.registrant.isSome && t.registrant == d.prHolder) || flags.writeExclAllowed
  else if d.prType = typeExclusiveAccess then
    (t.registrant.isSome && t.registrant == d.prHolder) || flags.exclAccessAllowed
  else if d.prType = typeWriteExclusiveRegonly ∨ d.prType = typeWriteExclusiveAllReg then
    t.registrant.isSome || flags.writeExclAllowed
  else if d.prType = typeExclusiveAccessRegonly ∨ d.prType = typeExclusiveAccessAllReg then
    t.registrant.isSome || flags.exclAccessAllowed
  else false

/-- The types that let one nexus alone through. -/
def exclusive (type : UInt8) : Prop := type = typeWriteExclusive ∨ type = typeExclusiveAccess

theorem allowed_exclusive {d : Device} {t : TgtDev} (set : d.prIsSet = true) (type : exclusive d.prType) :
    scstPrIsCmdAllowed d t .none = true ↔ t.registrant ≠ none ∧ t.registrant = d.prHolder := by
  unfold scstPrIsCmdAllowed
  rw [if_neg (not_not.mpr set)]
  rcases type with type | type
  · rw [if_pos type]
    cases t.registrant <;> simp [OpFlags.none]
  · rw [if_neg (by rw [type]; decide), if_pos type]
    cases t.registrant <;> simp [OpFlags.none]

theorem exclusive_one {type : UInt8} (kind : exclusive type) : allReg type = false := by
  rcases kind with rfl | rfl <;> decide

/-- As long as `r` holds an exclusive reservation, the commands that are not flagged are those of its
nexus. -/
theorem exclusive_until_deprived {n : Nat} {s : Nat → Device} {a : Nat → Act} (reached : (s 0).Reached)
    (trace : Trace Does n s a) {r : Registrant} (known : r ∈ (s 0).devRegistrantsList) {type : UInt8}
    (kind : exclusive type) (holds : (s 0).Held r.ref type) {t : TgtDev} (inside : t ∈ (s n).tgtDevs)
    (allowed : scstPrIsCmdAllowed (s n) t .none = true) :
    (t.registrant = some r.ref ∧ tidEqual (some r.transportId) t.transportId = true ∧ t.relTgtId = r.relTgtId ∧
        ∀ t' ∈ (s n).tgtDevs, scstPrIsCmdAllowed (s n) t' .none = true → t' = t) ∨
      ∃ k < n, Deprives (s k) (a k) (s (k + 1)) r type := by
  by_cases still : (s n).Has r ∧ (s n).Held r.ref type
  · refine Or.inl ?_
    obtain ⟨has, held⟩ := still
    have safe := trace_safe reached.safe trace n le_rfl
    have kind : exclusive (s n).prType := held.2 ▸ kind
    obtain ⟨set, holder⟩ := (isHolder_one (exclusive_one kind) r.ref).mp held.1
    have points : ∀ x, scstPrIsCmdAllowed (s n) x .none = true → x.registrant = some r.ref := by
      intro x allowed
      rw [((allowed_exclusive set kind).mp allowed).2]
      exact holder
    obtain ⟨r', known', ref, own⟩ := safe.1.registry.linked t inside _ (points t allowed)
    obtain ⟨x, inside', same, _, fits⟩ := safe.1.registry.back r' known' _ own
    rw [safe.1.registry.tgtDev_eq inside' inside same] at fits
    obtain ⟨r'', known'', ref', tid, rel⟩ := has
    rw [safe.1.registry.reg_eq known' known'' (ref.trans ref'.symm)] at fits
    refine ⟨points t allowed, tid ▸ fits.2, ?_, fun t' other allowed' => ?_⟩
    · rw [← rel, fits.1]
    · obtain ⟨q, knownQ, refQ, ownQ⟩ := safe.1.registry.linked t' other _ (points t' allowed')
      rw [safe.1.registry.reg_eq knownQ known' (refQ.trans ref.symm), own] at ownQ
      exact safe.1.registry.tgtDev_eq other inside (Option.some.inj ownQ).symm
  · exact Or.inr (deprived_within reached.safe trace known holds still)

/-- Port B changes its key and then tries to reserve the device. -/
def attempt : Nat → Device
  | 0 => held
  | _ => { held with prGeneration := 3, devRegistrantsList := [regA, { regB with key := 3 }] }

def attemptActs : Nat → Act
  | 0 => .command quietEnv registeredB (command 0 0 2 3 0)
  | _ => .command quietEnv registeredB (command 1 1 3 0 0)

theorem exclusive_until_deprived_attempt :
    registeredA ∈ (attempt 2).tgtDevs ∧ scstPrIsCmdAllowed (attempt 2) registeredA .none = true ∧
      ∀ t ∈ (attempt 2).tgtDevs, scstPrIsCmdAllowed (attempt 2) t .none = true → t = registeredA := by
  have rekeyed : scstPersistentReserveOutLocal quietEnv (attempt 0) registeredB (command 0 0 2 3 0) =
      .ok ⟨attempt 1, .good, []⟩ := by
    decide +kernel
  have refused : scstPersistentReserveOutLocal quietEnv (attempt 1) registeredB (command 1 1 3 0 0) =
      .ok ⟨attempt 2, .reservationConflict, []⟩ := by
    decide +kernel
  have trace : Trace Does 2 attempt attemptActs := by
    intro k low
    obtain _ | _ | k := k
    · exact .command (by decide) rfl rekeyed
    · exact .command (by decide) rfl refused
    · omega
  have keeps : ∀ k, (attempt (k + 1)).Has regA ∧ (attempt (k + 1)).Held regA.ref typeWriteExclusive :=
    fun k => ⟨⟨regA, List.mem_cons_self, rfl, rfl, rfl⟩, rfl, rfl⟩
  have here := exclusive_until_deprived held_reached trace (r := regA) List.mem_cons_self (Or.inl rfl)
    ⟨by decide, rfl⟩ (t := registeredA) List.mem_cons_self (by decide)
  rcases here with ⟨_, _, _, alone⟩ | ⟨k, _, _, gone, _⟩
  · exact ⟨List.mem_cons_self, by decide, alone⟩
  · exact absurd (keeps k) gone

end Ldd3.Pres
