import Mathlib.Data.List.Basic
import Mathlib.Data.List.TakeWhile

/-!
Transport identifiers of `scst_pres.c` (SCST 3.1.0). The identifier of an iSCSI port says how long it
is, every other one has 24 bytes. An iSCSI identifier holds the name of the initiator alone (format
`0x00`) or the name and, after a comma, the session (format `0x40`). `tid_equal` lets a bare name equal
every identifier with that name, so it is no equivalence. It can be chained through an identifier that
is not a bare name.
-/

namespace Ldd3.Pres

def protocolIscsi : UInt8 := 5

def tidCommonSize : Nat := 24

def scstTidSize (tid : List UInt8) : Nat :=
  if tid.getD 0 0 &&& 0x0f = protocolIscsi then (tid.getD 2 0).toNat * 256 + (tid.getD 3 0).toNat + 4
  else tidCommonSize

structure TransportId where
  bytes : List UInt8
  sized : bytes.length = scstTidSize bytes
  deriving DecidableEq

namespace TransportId

def protocol (tid : TransportId) : UInt8 := tid.bytes.getD 0 0 &&& 0x0f

def fmt (tid : TransportId) : UInt8 := tid.bytes.getD 0 0 &&& 0xc0

/-- What `strnlen` counts of the name. -/
def name (tid : TransportId) : List UInt8 := (tid.bytes.drop 4).takeWhile (· ≠ 0)

/-- The part of the name of `tid` that is compared with the name of `other`. -/
def compared (tid other : TransportId) : Option (List UInt8) :=
  if tid.fmt = 0x00 then some tid.name
  else if tid.fmt = 0x40 then
    if tid.fmt ≠ other.fmt then
      if 0x2c ∈ tid.name then some (tid.name.takeWhile (· ≠ 0x2c)) else none
    else some tid.name
  else none

/-- An identifier that is not the bare name of an iSCSI initiator. -/
def Full (tid : TransportId) : Prop := tid.protocol = protocolIscsi → tid.fmt ≠ 0x00

instance (tid : TransportId) : Decidable tid.Full := inferInstanceAs (Decidable (_ → _))

end TransportId

def isupper (c : UInt8) : Bool := (0x41 ≤ c && c ≤ 0x5a) || (0xc0 ≤ c && c ≤ 0xde && c != 0xd7)

def tolower (c : UInt8) : UInt8 := if isupper c then c + 32 else c

def TransportId.equal (a b : TransportId) : Bool :=
  if a.protocol ≠ b.protocol then false
  else if a.protocol = protocolIscsi then
    match a.compared b, b.compared a with
    | some x, some y => x.map tolower == y.map tolower
    | _, _ => false
  else a.bytes.take tidCommonSize == b.bytes.take tidCommonSize

def tidEqual : Option TransportId → Option TransportId → Bool
  | some a, some b => a.equal b
  | _, _ => false

/-! ### Names -/

theorem tolower_comma {c : UInt8} : tolower c = 0x2c ↔ c = 0x2c := by
  unfold tolower
  by_cases upper : isupper c = true
  · rw [if_pos upper]
    constructor
    · intro same
      have small : c = 12 := (UInt8.add_left_inj 32).mp same
      rw [small] at upper
      exact absurd upper (by decide)
    · rintro rfl
      exact absurd upper (by decide)
  · rw [if_neg upper]

theorem lower_takeWhile (s : List UInt8) :
    (s.takeWhile (· ≠ 0x2c)).map tolower = (s.map tolower).takeWhile (· ≠ 0x2c) := by
  rw [List.takeWhile_map]
  congr 2
  funext c
  simp [Function.comp, tolower_comma]

theorem comma_mem_lower {s : List UInt8} : 0x2c ∈ s.map tolower ↔ 0x2c ∈ s := by
  simp [tolower_comma]

theorem comma_of_lower {s s' : List UInt8} (same : s.map tolower = s'.map tolower) : 0x2c ∈ s ↔ 0x2c ∈ s' := by
  rw [← comma_mem_lower, same, comma_mem_lower]

/-! ### Comparing -/

theorem equal_iff {a b : TransportId} :
    a.equal b = true ↔ a.protocol = b.protocol ∧
      ((a.protocol = protocolIscsi ∧ ∃ x y, a.compared b = some x ∧ b.compared a = some y ∧
          x.map tolower = y.map tolower) ∨
        (a.protocol ≠ protocolIscsi ∧ a.bytes.take tidCommonSize = b.bytes.take tidCommonSize)) := by
  unfold TransportId.equal
  by_cases kind : a.protocol = b.protocol
  · rw [if_neg (not_not.mpr kind)]
    by_cases iscsi : a.protocol = protocolIscsi
    · rw [if_pos iscsi]
      cases left : a.compared b <;> cases right : b.compared a <;> simp [kind, kind ▸ iscsi]
    · rw [if_neg iscsi]
      simp [kind, kind ▸ iscsi]
  · rw [if_pos kind]
    simp [kind]

theorem equal_symm {a b : TransportId} (same : a.equal b = true) : b.equal a = true := by
  rw [equal_iff] at same ⊢
  obtain ⟨kind, ⟨iscsi, x, y, left, right, names⟩ | ⟨other, bytes⟩⟩ := same
  · exact ⟨kind.symm, Or.inl ⟨kind ▸ iscsi, y, x, right, left, names.symm⟩⟩
  · exact ⟨kind.symm, Or.inr ⟨kind ▸ other, bytes.symm⟩⟩

theorem tidEqual_symm {a b : Option TransportId} (same : tidEqual a b = true) : tidEqual b a = true := by
  cases a with
  | none => cases same
  | some a =>
    cases b with
    | none => cases same
    | some b => exact equal_symm same

theorem compared_cases {a b : TransportId} {x : List UInt8} (found : a.compared b = some x) :
    (a.fmt = 0x00 ∧ x = a.name) ∨
      (a.fmt = 0x40 ∧ b.fmt ≠ 0x40 ∧ 0x2c ∈ a.name ∧ x = a.name.takeWhile (· ≠ 0x2c)) ∨
      (a.fmt = 0x40 ∧ b.fmt = 0x40 ∧ x = a.name) := by
  unfold TransportId.compared at found
  by_cases bare : a.fmt = 0x00
  · rw [if_pos bare] at found
    exact Or.inl ⟨bare, (Option.some.inj found).symm⟩
  · rw [if_neg bare] at found
    by_cases both : a.fmt = 0x40
    · rw [if_pos both, both] at found
      by_cases mixed : (0x40 : UInt8) ≠ b.fmt
      · rw [if_pos mixed] at found
        by_cases comma : 0x2c ∈ a.name
        · rw [if_pos comma] at found
          exact Or.inr (Or.inl ⟨both, Ne.symm mixed, comma, (Option.some.inj found).symm⟩)
        · rw [if_neg comma] at found
          cases found
      · rw [if_neg mixed] at found
        exact Or.inr (Or.inr ⟨both, (not_not.mp mixed).symm, (Option.some.inj found).symm⟩)
    · rw [if_neg both] at found
      cases found

theorem compared_bare {a : TransportId} (b : TransportId) (bare : a.fmt = 0x00) : a.compared b = some a.name :=
  if_pos bare

theorem compared_same {a b : TransportId} (left : a.fmt = 0x40) (right : b.fmt = 0x40) :
    a.compared b = some a.name := by
  simp [TransportId.compared, left, right]

theorem compared_mixed {a b : TransportId} (left : a.fmt = 0x40) (right : b.fmt = 0x00) (comma : 0x2c ∈ a.name) :
    a.compared b = some (a.name.takeWhile (· ≠ 0x2c)) := by
  simp [TransportId.compared, left, right, comma]

theorem lower_takeWhile_congr {s s' : List UInt8} (same : s.map tolower = s'.map tolower) :
    (s.takeWhile (· ≠ 0x2c)).map tolower = (s'.takeWhile (· ≠ 0x2c)).map tolower := by
  rw [lower_takeWhile, same, ← lower_takeWhile]

/-- Two identifiers that equal the same full one equal each other. -/
theorem equal_trans {a t b : TransportId} (full : t.Full) (first : a.equal t = true)
    (second : t.equal b = true) : a.equal b = true := by
  rw [equal_iff] at first second ⊢
  obtain ⟨kind, first⟩ := first
  obtain ⟨kind', second⟩ := second
  refine ⟨kind.trans kind', ?_⟩
  rcases first with ⟨iscsi, x, y, ax, ty, names⟩ | ⟨other, bytes⟩
  · rcases second with ⟨_, u, v, tu, bv, names'⟩ | ⟨other, _⟩
    · refine Or.inl ⟨iscsi, ?_⟩
      have notBare := full (kind ▸ iscsi)
      rcases compared_cases ax with ⟨aBare, rfl⟩ | ⟨_, tOther, _⟩ | ⟨aBoth, tBoth, rfl⟩
      · rcases compared_cases ty with ⟨tBare, _⟩ | ⟨tBoth, _, comma, rfl⟩ | ⟨_, aBoth, _⟩
        · exact absurd tBare notBare
        · rcases compared_cases bv with ⟨bBare, rfl⟩ | ⟨_, tOther, _⟩ | ⟨bBoth, _, rfl⟩
          · rw [compared_mixed tBoth bBare comma] at tu
            cases tu
            exact ⟨_, _, compared_bare b aBare, compared_bare a bBare, names.trans names'⟩
          · exact absurd tBoth tOther
          · rw [compared_same tBoth bBoth] at tu
            cases tu
            refine ⟨_, _, compared_bare b aBare, compared_mixed bBoth aBare ((comma_of_lower names').mp comma), ?_⟩
            exact names.trans (lower_takeWhile_congr names')
        · rw [aBare] at aBoth
          exact absurd aBoth (by decide)
      · rcases compared_cases ty with ⟨tBare, _⟩ | ⟨tBoth, _⟩ | ⟨tBoth, _⟩
        · exact absurd tBare notBare
        · exact absurd tBoth tOther
        · exact absurd tBoth tOther
      · rw [compared_same tBoth aBoth] at ty
        cases ty
        rcases compared_cases bv with ⟨bBare, rfl⟩ | ⟨_, tOther, _⟩ | ⟨bBoth, _, rfl⟩
        · rcases compared_cases tu with ⟨tBare, _⟩ | ⟨_, _, comma, rfl⟩ | ⟨_, bBoth, _⟩
          · exact absurd tBare notBare
          · refine ⟨_, _, compared_mixed aBoth bBare ((comma_of_lower names).mpr comma), compared_bare a bBare, ?_⟩
            exact (lower_takeWhile_congr names).trans names'
          · rw [bBare] at bBoth
            exact absurd bBoth (by decide)
        · exact absurd tBoth tOther
        · rw [compared_same tBoth bBoth] at tu
          cases tu
          exact ⟨_, _, compared_same aBoth bBoth, compared_same bBoth aBoth, names.trans names'⟩
    · exact absurd (kind ▸ iscsi) other
  · rcases second with ⟨iscsi, _⟩ | ⟨_, bytes'⟩
    · exact absurd (kind.trans iscsi) other
    · exact Or.inr ⟨other, bytes.trans bytes'⟩

end Ldd3.Pres
