import Mathlib.Algebra.Order.BigOperators.Group.List
import Ldd3.Time.Callback

/-!
`timer-old.c`, where every read of the proc file uses one static `data`, one timer and one wait
queue. A read aims `data.buf` at its page, sets `data.loops`, arms the timer and waits for `loops` to
come to zero; nothing keeps a second read from doing the same in between.
-/

namespace Ldd3.Time.Old

open Base.Words Relation

/-- Where `sdev_proc` is; the last two are its returns. -/
inductive Proc where
  | calling
  | initialised
  | dated
  | aimed
  | counted
  | testing
  | asleep
  | leaving
  | interrupted
  | returned (len : Int)
  deriving DecidableEq

/-- `data.buf` is still to be set. -/
def Proc.early : Proc → Bool
  | .calling | .initialised | .dated => true
  | _ => false

/-- The read has set `data.buf` and not yet returned. -/
def Proc.engaged : Proc → Bool
  | .aimed | .counted | .testing | .asleep | .leaving => true
  | .calling | .initialised | .dated | .interrupted | .returned _ => false

theorem Proc.engaged_of_early {p : Proc} (early : p.early = true) : p.engaged = false := by
  cases p <;> first | rfl | cases early

structure Run (ι : Type*) where
  armer : ι
  stage : Stage

structure Entry (ι : Type*) where
  armer : ι
  write : Write ι

/-- All the reads. `work` has the armed and running callbacks, each with the read whose `add_timer`
it goes back to; `log` has the lines written. -/
structure System (ι : Type*) where
  data : Sdevdata ι
  work : List (Run ι)
  log : List (Entry ι)
  proc : ι → Proc
  signal : ι → Bool

variable {ι : Type*} [DecidableEq ι]

def System.goes (s : System ι) (t : ι) (p : Proc) : System ι :=
  { s with proc := Function.update s.proc t p }

/-- `page t` is the address of the page that read `t` was given. -/
inductive Step (page : ι → Int) : System ι → System ι → Prop where
  | initTimer (s : System ι) (t : ι) : s.proc t = .calling → Step page s (s.goes t .initialised)
  | setPrejif (s : System ι) (t : ι) (j : Nat) : s.proc t = .initialised →
      Step page s { s.goes t .dated with data := { s.data with prejif := j } }
  | setBuf (s : System ι) (t : ι) : s.proc t = .dated →
      Step page s { s.goes t .aimed with data := { s.data with buf := ⟨t, 0⟩ } }
  | setLoops (s : System ι) (t : ι) : s.proc t = .aimed →
      Step page s { s.goes t .counted with data := { s.data with loops := LOOPS } }
  | addTimer (s : System ι) (t : ι) : s.proc t = .counted →
      Step page s { s.goes t .testing with work := s.work ++ [⟨t, .pending⟩] }
  -- `wait_event_interruptible(sdev_wait, data.loops == 0)`
  | seesZero (s : System ι) (t : ι) : s.proc t = .testing → s.data.loops = 0 →
      Step page s (s.goes t .leaving)
  | interrupted (s : System ι) (t : ι) : s.proc t = .testing → s.data.loops ≠ 0 → s.signal t = true →
      Step page s (s.goes t .interrupted)
  | sleep (s : System ι) (t : ι) : s.proc t = .testing → s.data.loops ≠ 0 → s.signal t = false →
      Step page s (s.goes t .asleep)
  | wakes (s : System ι) (t : ι) : s.proc t = .asleep → s.signal t = true →
      Step page s (s.goes t .testing)
  -- `len = data.buf - buf`
  | returns (s : System ι) (t : ι) : s.proc t = .leaving →
      Step page s (s.goes t (.returned (toInt32 (page s.data.buf.page + s.data.buf.off - page t))))
  | signalled (s : System ι) (t : ι) : Step page s { s with signal := Function.update s.signal t true }
  | callback {stage : Stage} {w : Option (Write ι)} {d : Sdevdata ι} {next : Option Stage}
      (s : System ι) (a : ι) (front rest : List (Run ι)) : s.work = front ++ ⟨a, stage⟩ :: rest →
      Callback s.data stage w d next →
      Step page s { s with
        data := d
        work := front ++ (next.map (Run.mk a)).toList ++ rest
        log := s.log ++ (w.map (Entry.mk a)).toList
        proc := fun t => wakeUp .asleep .testing stage (s.proc t) }

def initial (d : Sdevdata ι) : System ι := ⟨d, [], [], fun _ => .calling, fun _ => false⟩

def pageSize : Nat := 4096

/-- The lengths of the lines in the page of `t`. -/
def lens (log : List (Entry ι)) (t : ι) : List Nat :=
  (log.filter fun e => e.write.place.page = t).map fun e => e.write.text.length

/-- `len` is the length of `LOOPS` lines, and they are all that is in the page of `t`. -/
def Complete (log : List (Entry ι)) (t : ι) (len : Int) : Prop :=
  (lens log t).length = LOOPS ∧ (lens log t).sum = len

/-- A read that returns a length returns that of `LOOPS` lines in its page, and every line is in the
page of the read that armed the callback. -/
def Isolated (s : System ι) : Prop :=
  (∀ t len, s.proc t = .returned len → 0 ≤ len → Complete s.log t len) ∧
    ∀ e ∈ s.log, e.write.place.page = e.armer ∧ e.write.place.off + e.write.text.length < pageSize

/-- A read sets `data.buf` when the timer is neither armed nor running and no other read is between
this assignment and its return. -/
def Orderly (s s' : System ι) : Prop :=
  ∀ t, s.proc t = .dated → s'.proc t ≠ .dated → s.work = [] ∧ ∀ u, (s.proc u).engaged = false

def OrderlyStep (page : ι → Int) (s s' : System ι) : Prop := Step page s s' ∧ Orderly s s'

/-! ### The invariant of orderly runs -/

/-- A countdown that belongs to read `t` alone. -/
structure Counting (d : Sdevdata ι) (work : List (Run ι)) (log : List (Entry ι)) (t : ι)
    (stage : Option Stage) : Prop where
  work : work = (stage.map (Run.mk t)).toList
  armed : Armed d.loops stage
  buf : d.buf = ⟨t, (lens log t).sum⟩
  lines : (lens log t).length + linesLeft d.loops stage = LOOPS

/-- What the shared data are when `t`, the read that set `data.buf` last, is at a point. -/
def Phase (d : Sdevdata ι) (work : List (Run ι)) (log : List (Entry ι)) (t : ι) : Proc → Prop
  | .calling | .initialised | .dated => False
  | .aimed => work = [] ∧ lens log t = [] ∧ d.buf = ⟨t, 0⟩
  | .counted => work = [] ∧ lens log t = [] ∧ d.buf = ⟨t, 0⟩ ∧ d.loops = LOOPS
  | .testing | .asleep | .interrupted => ∃ stage, Counting d work log t stage
  | .leaving | .returned _ => (∃ stage, Counting d work log t stage) ∧ d.loops = 0

structure Current (s : System ι) (t : ι) : Prop where
  others : ∀ u, u ≠ t → (s.proc u).engaged = false
  phase : Phase s.data s.work s.log t (s.proc t)

structure Inv (s : System ι) : Prop where
  inside : ∀ e ∈ s.log, e.write.place.page = e.armer ∧ e.write.text.length ≤ 99 ∧
    e.write.place.off + e.write.text.length < pageSize
  fresh : ∀ t, (s.proc t).early = true → lens s.log t = []
  done : ∀ t len, s.proc t = .returned len → Complete s.log t len
  current : (s.work = [] ∧ ∀ u, (s.proc u).engaged = false) ∨ ∃ t, Current s t

variable {page : ι → Int} {s s' : System ι}

theorem goes_same (s : System ι) (t : ι) (p : Proc) : (s.goes t p).proc t = p := Function.update_self ..

theorem goes_forall (t : ι) (p : Proc) {P : ι → Proc → Prop} (mine : P t p)
    (theirs : ∀ u, u ≠ t → P u (s.proc u)) : ∀ u, P u ((s.goes t p).proc u) :=
  (Function.forall_update_iff s.proc P).mpr ⟨mine, theirs⟩

theorem inv_initial (d : Sdevdata ι) : Inv (initial d) := by
  refine ⟨?_, fun _ _ => rfl, ?_, .inl ⟨rfl, fun _ => rfl⟩⟩
  · intro e member
    exact absurd member List.not_mem_nil
  · intro t len returned
    exact nomatch (returned : Proc.calling = .returned len)

theorem Inv.current_of_engaged (inv : Inv s) {t : ι} {p : Proc} (here : s.proc t = p)
    (busy : p.engaged = true) :
    (∀ u, u ≠ t → (s.proc u).engaged = false) ∧ Phase s.data s.work s.log t p := by
  subst here
  rcases inv.current with ⟨-, idle⟩ | ⟨u, current⟩
  · exact absurd (busy.symm.trans (idle t)) nofun
  · by_cases same : t = u
    · exact same ▸ ⟨current.others, current.phase⟩
    · exact absurd (busy.symm.trans (current.others t same)) nofun

/-- The read that `data.buf` belongs to moves on. -/
theorem Inv.move (inv : Inv s) {t : ι} (others : ∀ u, u ≠ t → (s.proc u).engaged = false) {p : Proc}
    {d : Sdevdata ι} {work : List (Run ι)} (started : p.early = false)
    (done : ∀ len, p = .returned len → Complete s.log t len) (phase : Phase d work s.log t p) :
    Inv { s.goes t p with data := d, work := work } := by
  have fresh := goes_forall t p (P := fun u q => q.early = true → lens s.log u = [])
    (fun early => absurd (started.symm.trans early) nofun) fun u _ => inv.fresh u
  have returned := goes_forall t p (P := fun u q => ∀ len, q = .returned len → Complete s.log u len)
    done fun u _ => inv.done u
  have free := goes_forall t p (P := fun u q => u ≠ t → q.engaged = false) (fun other => absurd rfl other)
    fun u other _ => others u other
  refine ⟨inv.inside, fresh, returned, .inr ⟨t, free, ?_⟩⟩
  rw [show ({ s.goes t p with data := d, work := work } : System ι).proc t = p from goes_same s t p]
  exact phase

theorem Phase.late {d : Sdevdata ι} {work : List (Run ι)} {log : List (Entry ι)} {t : ι} {p : Proc}
    (phase : Phase d work log t p) : p.early = false := by
  cases p <;> first | rfl | exact phase.elim

theorem Phase.redate {d : Sdevdata ι} {work : List (Run ι)} {log : List (Entry ι)} {t : ι} {p : Proc}
    (phase : Phase d work log t p) (j : Nat) : Phase { d with prejif := j } work log t p := by
  have again : ∀ stage, Counting d work log t stage → Counting { d with prejif := j } work log t stage :=
    fun _ counting => ⟨counting.work, counting.armed, counting.buf, counting.lines⟩
  cases p with
  | calling | initialised | dated | aimed | counted => exact phase
  | testing | asleep | interrupted => exact phase.imp again
  | leaving | returned => exact ⟨phase.1.imp again, phase.2⟩

/-- A read that has not yet set `data.buf` moves on. -/
theorem Inv.prepare (inv : Inv s) {t : ι} {p : Proc} (early : (s.proc t).early = true) (still : p.early = true)
    (j : Nat) : Inv { s.goes t p with data := { s.data with prejif := j } } := by
  have fresh := goes_forall t p (P := fun u q => q.early = true → lens s.log u = [])
    (fun _ => inv.fresh t early) fun u _ => inv.fresh u
  have returned : ∀ len, p = .returned len → Complete s.log t len := by
    rintro len rfl
    cases still
  have done := goes_forall t p (P := fun u q => ∀ len, q = .returned len → Complete s.log u len)
    returned fun u _ => inv.done u
  refine ⟨inv.inside, fresh, done, inv.current.imp ?_ ?_⟩
  · rintro ⟨idle, others⟩
    have free := goes_forall t p (P := fun _ q => q.engaged = false) (Proc.engaged_of_early still)
      fun u _ => others u
    exact ⟨idle, free⟩
  · rintro ⟨u, others, phase⟩
    have apart : u ≠ t := by
      rintro rfl
      exact absurd (early.symm.trans phase.late) nofun
    have free := goes_forall t p (P := fun v q => v ≠ u → q.engaged = false)
      (fun _ => Proc.engaged_of_early still) fun v _ => others v
    refine ⟨u, free, ?_⟩
    show Phase { s.data with prejif := j } s.work s.log u ((s.goes t p).proc u)
    rw [show (s.goes t p).proc u = s.proc u from Function.update_of_ne apart ..]
    exact phase.redate j

theorem sum_lens_le {log : List (Entry ι)} (short : ∀ e ∈ log, e.write.text.length ≤ 99) (t : ι) :
    (lens log t).sum ≤ 99 * (lens log t).length := by
  have each : ∀ len ∈ lens log t, len ≤ 99 := by
    intro len member
    obtain ⟨e, among, rfl⟩ := List.mem_map.mp member
    exact short e (List.mem_filter.mp among).1
  rw [mul_comm]
  exact List.sum_le_card_nsmul _ _ each

theorem Inv.sum_le (inv : Inv s) (t : ι) : (lens s.log t).sum ≤ 99 * (lens s.log t).length :=
  sum_lens_le (fun e member => (inv.inside e member).2.1) t

/-- At zero the countdown of `t` has written its lines, and the cursor stands behind them. -/
theorem Inv.complete (inv : Inv s) {t : ι} {stage : Option Stage} (counting : Counting s.data s.work s.log t stage)
    (zero : s.data.loops = 0) :
    Complete s.log t (toInt32 (page s.data.buf.page + s.data.buf.off - page t)) := by
  have lines := counting.lines
  rw [counting.armed.linesLeft_eq_zero zero, add_zero] at lines
  have bound := inv.sum_le t
  refine ⟨lines, ?_⟩
  unfold LOOPS at lines
  rw [counting.buf]
  dsimp only
  rw [add_sub_cancel_left, toInt32_of_range] <;> omega

theorem lens_append (log more : List (Entry ι)) (t : ι) :
    lens (log ++ more) t = lens log t ++ lens more t := by
  simp [lens]

theorem lens_singleton (e : Entry ι) (t : ι) :
    lens [e] t = if e.write.place.page = t then [e.write.text.length] else [] := by
  unfold lens
  split <;> simp_all

theorem wakeUp_engaged (stage : Stage) (p : Proc) :
    (wakeUp .asleep .testing stage p).engaged = p.engaged := by
  rcases wakeUp_cases .asleep .testing stage p with same | ⟨asleep, woken⟩
  · rw [same]
  · rw [woken, asleep]
    rfl

theorem eq_of_wakeUp {stage : Stage} {p q : Proc} (eq : wakeUp .asleep .testing stage p = q)
    (idle : q.engaged = false) : p = q := by
  rcases wakeUp_cases .asleep .testing stage p with same | ⟨-, woken⟩
  · exact same.symm.trans eq
  · rw [← eq, woken] at idle
    cases idle

section Callback

variable {d d' : Sdevdata ι} {work work' : List (Run ι)} {log log' : List (Entry ι)} {t : ι}
  {stage : Stage} {next : Option Stage} {w : Option (Write ι)}

theorem Phase.counting {p : Proc} (phase : Phase d work log t p) (running : work ≠ []) :
    ∃ stage, Counting d work log t stage := by
  cases p with
  | calling | initialised | dated => exact phase.elim
  | aimed | counted => exact absurd phase.1 running
  | testing | asleep | interrupted => exact phase
  | leaving | returned => exact phase.1

theorem Phase.recount {p : Proc} (phase : Phase d work log t p) (running : work ≠ [])
    (counting : Counting d' work' log' t next) (zero : d.loops = 0 → d'.loops = 0) :
    Phase d' work' log' t p := by
  cases p with
  | calling | initialised | dated => exact phase.elim
  | aimed | counted => exact absurd phase.1 running
  | testing | asleep | interrupted => exact ⟨next, counting⟩
  | leaving | returned => exact ⟨⟨next, counting⟩, zero phase.2⟩

/-- The only callback under way is the one that `t` armed. -/
theorem Counting.alone {stage' : Option Stage} (counting : Counting d work log t stage') {a : ι}
    {front rest : List (Run ι)} (running : work = front ++ ⟨a, stage⟩ :: rest) :
    front = [] ∧ rest = [] ∧ a = t ∧ stage' = some stage := by
  have single := counting.work.symm.trans running
  cases stage' with
  | none => simp at single
  | some stage' => 
    cases front with
    | nil => simp_all
    | cons => simp at single

theorem Counting.step (counting : Counting d work log t (some stage)) (stepped : Callback d stage w d' next) :
    Counting d' (next.map (Run.mk t)).toList (log ++ (w.map (Entry.mk t)).toList) t next := by
  obtain ⟨armed, left⟩ := stepped.step counting.armed
  have lines := counting.lines
  refine ⟨rfl, armed, ?_, ?_⟩
  · cases w with
    | none => simpa using stepped.buf_none.trans counting.buf
    | some e =>
      obtain ⟨place, -, moved⟩ := stepped.buf_some
      rw [counting.buf] at place moved
      simp [moved, lens_append, lens_singleton, place]
  · cases w with
    | none => simp_all
    | some e =>
      obtain ⟨place, -, -⟩ := stepped.buf_some
      rw [counting.buf] at place
      simp only [Option.isSome_some, if_true] at left
      simp only [Option.map_some, Option.toList_some, lens_append, lens_singleton, place, if_true,
        List.length_append, List.length_singleton]
      omega

theorem Counting.lens_other (counting : Counting d work log t (some stage))
    (stepped : Callback d stage w d' next) {u : ι} (other : u ≠ t) :
    lens (log ++ (w.map (Entry.mk t)).toList) u = lens log u := by
  cases w with
  | none => simp
  | some e =>
    have page : e.place.page = t := by rw [stepped.buf_some.1, counting.buf]
    simp [lens_append, lens_singleton, page, other.symm]

theorem Counting.silent (counting : Counting d work log t (some stage))
    (stepped : Callback d stage w d' next) (zero : d.loops = 0) : w = none := by
  obtain ⟨armed, left⟩ := stepped.step counting.armed
  have some := armed.linesLeft_nonneg
  rw [left, counting.armed.linesLeft_eq_zero zero] at some
  cases w with
  | none => rfl
  | some e => simp at some

/-- The line that comes next still fits into the page. -/
theorem Counting.fits (counting : Counting d work log t (some stage)) {e : Write ι}
    (stepped : Callback d stage (some e) d' next) (short : (lens log t).sum ≤ 99 * (lens log t).length) :
    e.place.page = t ∧ e.text.length ≤ 99 ∧ e.place.off + e.text.length < pageSize := by
  obtain ⟨armed, left⟩ := stepped.step counting.armed
  obtain ⟨place, len, -⟩ := stepped.buf_some
  have some := armed.linesLeft_nonneg
  have lines := counting.lines
  simp only [Option.isSome_some, if_true] at left
  unfold LOOPS at lines
  unfold pageSize
  rw [place, counting.buf]
  refine ⟨rfl, len, ?_⟩
  dsimp only
  omega

end Callback

theorem Inv.callback (inv : Inv s) {stage : Stage} {w : Option (Write ι)} {d : Sdevdata ι}
    {next : Option Stage} {a : ι} {front rest : List (Run ι)} (running : s.work = front ++ ⟨a, stage⟩ :: rest)
    (stepped : Callback s.data stage w d next) :
    Inv { s with
      data := d
      work := front ++ (next.map (Run.mk a)).toList ++ rest
      log := s.log ++ (w.map (Entry.mk a)).toList
      proc := fun t => wakeUp .asleep .testing stage (s.proc t) } := by
  have busy : s.work ≠ [] := by simp [running]
  obtain ⟨idle, -⟩ | ⟨t, current⟩ := inv.current
  · exact absurd idle busy
  obtain ⟨stage', counting⟩ := current.phase.counting busy
  obtain ⟨rfl, rfl, rfl, rfl⟩ := counting.alone running
  have phase := current.phase.recount busy (counting.step stepped) (stepped.zero_stays counting.armed)
  refine ⟨fun e member => ?_, fun u early => ?_, fun u len returned => ?_, .inr ⟨a, fun u other => ?_, ?_⟩⟩
  · rcases List.mem_append.mp member with old | new
    · exact inv.inside e old
    · obtain ⟨e, rfl, rfl⟩ : ∃ e', w = some e' ∧ e = ⟨a, e'⟩ := by cases w <;> simp_all
      exact counting.fits stepped (inv.sum_le a)
  · have was : s.proc u = _ := eq_of_wakeUp rfl (Proc.engaged_of_early early)
    have before : (s.proc u).early = true := (congrArg Proc.early was).trans early
    have other : u ≠ a := by
      rintro rfl
      exact absurd (before.symm.trans current.phase.late) nofun
    exact (counting.lens_other stepped other).trans (inv.fresh u before)
  · have was := eq_of_wakeUp returned rfl
    by_cases same : u = a
    · subst same
      have phase := current.phase
      rw [was] at phase
      rw [counting.silent stepped phase.2]
      simpa using inv.done u len was
    · unfold Complete
      rw [counting.lens_other stepped same]
      exact inv.done u len was
  · exact (wakeUp_engaged stage (s.proc u)).trans (current.others u other)
  · rw [List.nil_append, List.append_nil]
    dsimp only
    rcases wakeUp_cases .asleep .testing stage (s.proc a) with same | ⟨asleep, woken⟩
    · rw [same]
      exact phase
    · rw [woken]
      rw [asleep] at phase
      exact phase

theorem Inv.step (inv : Inv s) (stepped : Step page s s') (orderly : Orderly s s') : Inv s' := by
  cases stepped with
  | initTimer _ t here => exact inv.prepare (by rw [here]; rfl) rfl s.data.prejif
  | setPrejif _ t j here => exact inv.prepare (by rw [here]; rfl) rfl j
  | setBuf _ t here =>
    obtain ⟨idle, others⟩ := orderly t here (by rw [goes_same]; nofun)
    exact inv.move (fun u _ => others u) rfl nofun ⟨idle, inv.fresh t (by rw [here]; rfl), rfl⟩
  | setLoops _ t here =>
    obtain ⟨others, idle, none, buf⟩ := inv.current_of_engaged here rfl
    exact inv.move others rfl nofun ⟨idle, none, buf, rfl⟩
  | addTimer _ t here =>
    obtain ⟨others, idle, none, buf, loops⟩ := inv.current_of_engaged here rfl
    have counting : Counting s.data (s.work ++ [⟨t, .pending⟩]) s.log t (some .pending) := by
      refine ⟨?_, ?_, ?_, ?_⟩
      · rw [idle]
        rfl
      · rw [loops]
        exact ⟨by decide, le_rfl⟩
      · rw [buf, none]
        rfl
      · rw [none, loops]
        rfl
    exact inv.move others rfl nofun ⟨_, counting⟩
  | seesZero _ t here zero =>
    obtain ⟨others, phase⟩ := inv.current_of_engaged here rfl
    exact inv.move others rfl nofun ⟨phase, zero⟩
  | interrupted _ t here | sleep _ t here | wakes _ t here =>
    obtain ⟨others, phase⟩ := inv.current_of_engaged here rfl
    exact inv.move others rfl nofun phase
  | returns _ t here =>
    obtain ⟨others, ⟨stage, counting⟩, zero⟩ := inv.current_of_engaged here rfl
    refine inv.move others rfl (fun len eq => ?_) ⟨⟨stage, counting⟩, zero⟩
    cases eq
    exact inv.complete counting zero
  | signalled _ t =>
    exact ⟨inv.inside, inv.fresh, inv.done, inv.current.imp_right fun ⟨t, current⟩ => ⟨t, current.1, current.2⟩⟩
  | callback _ a front rest running stepped => exact inv.callback running stepped

theorem inv_of_run {d : Sdevdata ι} (run : ReflTransGen (OrderlyStep page) (initial d) s) : Inv s := by
  induction run with
  | refl => exact inv_initial d
  | tail _ stepped ih => exact ih.step stepped.1 stepped.2

/-! ### Runs of one and of two reads -/

theorem short_of_run {d : Sdevdata ι} (run : ReflTransGen (Step page) (initial d) s) :
    ∀ e ∈ s.log, e.write.text.length ≤ 99 := by
  induction run with
  | refl => exact fun e member => absurd member List.not_mem_nil
  | tail _ stepped ih =>
    cases stepped with
    | callback _ a front rest running stepped =>
      intro e member
      rcases List.mem_append.mp member with old | new
      · exact ih e old
      · obtain ⟨e', rfl, rfl⟩ := Option.map_eq_some_iff.mp (Option.mem_toList.mp new)
        exact stepped.buf_some.2.1
    | _ => exact ih

omit [DecidableEq ι] in
theorem orderly_of_kept (kept : ∀ t, s.proc t = .dated → s'.proc t = .dated) : Orderly s s' :=
  fun t here goes => absurd (kept t here) goes

theorem run_of_orderly (run : ReflTransGen (OrderlyStep page) s s') : ReflTransGen (Step page) s s' :=
  ReflTransGen.mono (fun _ _ stepped => stepped.1) s s' run

/-- The callbacks of `a` alone, while every read stays where it is. -/
theorem run_of_ticks (page : ι → Int) {x y : Sdevdata ι × Option Stage} (ticks : ReflTransGen Tick x y)
    (s : System ι) (a : ι) (awake : ∀ t, s.proc t ≠ .asleep) :
    ∃ log, ReflTransGen (OrderlyStep page)
      { s with data := x.1, work := (x.2.map (Run.mk a)).toList }
      { s with data := y.1, work := (y.2.map (Run.mk a)).toList, log := log } := by
  induction ticks with
  | refl => exact ⟨s.log, .refl⟩
  | @tail y z _ ticked ih =>
    obtain ⟨log, run⟩ := ih
    obtain ⟨stage, w, running, stepped⟩ := ticked
    have same : (fun t => wakeUp .asleep .testing stage (s.proc t)) = s.proc :=
      funext fun t => wakeUp_of_ne .testing stage (awake t)
    have moved : Step page _ _ :=
      .callback { s with data := y.1, work := (y.2.map (Run.mk a)).toList, log := log } a [] []
        (by rw [running]; rfl) stepped
    rw [same, List.nil_append, List.append_nil] at moved
    exact ⟨_, run.tail ⟨moved, orderly_of_kept fun _ here => here⟩⟩

theorem orderly_goes {t : ι} {p q : Proc} (here : s.proc t = p) (elsewhere : p ≠ .dated) (d : Sdevdata ι)
    (work : List (Run ι)) : Orderly s { s.goes t q with data := d, work := work } := by
  apply orderly_of_kept
  apply goes_forall t q (P := fun u r => s.proc u = .dated → r = .dated)
  · intro dated
    exact absurd (here.symm.trans dated) elsewhere
  · exact fun _ _ dated => dated

/-- Read `t` has set `data.prejif` at tick 0, and then `data.buf`. -/
def System.dates (s : System ι) (t : ι) : System ι := { s.goes t .dated with data := { s.data with prejif := 0 } }

def System.aims (s : System ι) (t : ι) : System ι := { s.goes t .aimed with data := ⟨0, ⟨t, 0⟩, s.data.loops⟩ }

theorem dates_run (page : ι → Int) (s : System ι) (t : ι) (here : s.proc t = .calling) :
    ReflTransGen (OrderlyStep page) s (s.dates t) := by
  have initialised := goes_same s t .initialised
  have begun : OrderlyStep page s (s.goes t .initialised) := ⟨.initTimer s t here, orderly_goes here nofun _ _⟩
  have dated := (ReflTransGen.single begun).tail
    ⟨.setPrejif _ t 0 initialised, orderly_goes initialised nofun _ _⟩
  simpa only [System.dates, System.goes, Function.update_idem] using dated

theorem aims_step (page : ι → Int) (s : System ι) (t : ι) : Step page (s.dates t) (s.aims t) := by
  have aimed : Step page (s.dates t) _ := .setBuf (s.dates t) t (goes_same s t .dated)
  simpa only [System.dates, System.aims, System.goes, Function.update_idem] using aimed

/-- The rest of `sdev_proc` after `data.buf = buf`, up to `add_timer`. -/
theorem setup_run (page : ι → Int) (s : System ι) (t : ι) (here : s.proc t = .aimed) (buf : s.data.buf = ⟨t, 0⟩) :
    ReflTransGen (OrderlyStep page) s ⟨⟨s.data.prejif, ⟨t, 0⟩, LOOPS⟩, s.work ++ [⟨t, .pending⟩], s.log,
      Function.update s.proc t .testing, s.signal⟩ := by
  have there : ∀ (s : System ι) p, (s.goes t p).proc t = p := fun s p => goes_same s t p
  have starts := ReflTransGen.refl (r := OrderlyStep page) (a := s)
  have counted := starts.tail ⟨.setLoops _ t here, orderly_goes here nofun _ _⟩
  have armed := counted.tail ⟨.addTimer _ t (there _ _), orderly_goes (p := .counted) (there _ _) nofun _ _⟩
  simpa only [System.goes, Function.update_idem, buf] using armed

/-- After `data.buf = buf` read `t` gets no further than its first test while its ten callbacks run. -/
theorem counted_run (page : ι → Int) (s : System ι) (t : ι) (here : s.proc t = .aimed) (buf : s.data.buf = ⟨t, 0⟩)
    (awake : ∀ u, s.proc u ≠ .asleep) (idle : s.work = []) :
    ∃ d log, d.loops = 0 ∧ d.buf.page = t ∧ d.buf.off ≤ 990 ∧
      ReflTransGen (OrderlyStep page) s ⟨d, [], log, Function.update s.proc t .testing, s.signal⟩ := by
  obtain ⟨d, zero, owner, off, ticks⟩ :=
    countdown 9 (d := (⟨s.data.prejif, ⟨t, 0⟩, LOOPS⟩ : Sdevdata ι)) rfl le_rfl
  have setup := setup_run page s t here buf
  rw [idle] at setup
  have still := goes_forall t .testing (P := fun _ q => q ≠ .asleep) nofun fun u _ => awake u
  obtain ⟨log, counted⟩ := run_of_ticks page (ticks.tail (tick (.wake d)))
    ⟨d, [], s.log, Function.update s.proc t .testing, s.signal⟩ t still
  exact ⟨d, log, zero, owner, by omega, setup.trans counted⟩

/-- A whole read, with nobody else about. -/
theorem read_run (page : ι → Int) (s : System ι) (t : ι) (here : s.proc t = .calling) (idle : s.work = [])
    (alone : ∀ u, (s.proc u).engaged = false) :
    ∃ d log len, ReflTransGen (OrderlyStep page) s
      ⟨d, [], log, Function.update s.proc t (.returned len), s.signal⟩ := by
  have there : ∀ (s : System ι) p, (s.goes t p).proc t = p := fun s p => goes_same s t p
  have quiet := goes_forall t .dated (P := fun _ q => q.engaged = false) rfl fun u _ => alone u
  have aimed := (dates_run page s t here).tail ⟨aims_step page s t, fun _ _ _ => ⟨idle, quiet⟩⟩
  have waking : ∀ u, s.proc u ≠ .asleep := by
    intro u asleep
    exact absurd ((alone u).symm.trans (congrArg Proc.engaged asleep)) nofun
  have awake := goes_forall t .aimed (P := fun _ q => q ≠ .asleep) nofun fun u _ => waking u
  obtain ⟨d, log, zero, -, -, counted⟩ := counted_run page (s.aims t) t (there s _) rfl awake idle
  have left := (aimed.trans counted).tail
    ⟨.seesZero _ t (Function.update_self ..) zero, orderly_goes (p := .testing) (Function.update_self ..) nofun _ _⟩
  have returned := left.tail
    ⟨.returns _ t (there _ _), orderly_goes (p := .leaving) (there _ _) nofun _ _⟩
  simp only [System.aims, System.goes, Function.update_idem] at returned
  exact ⟨d, log, _, returned⟩

/-- Reads that take `data.buf` over only once the timer is quiet and the last read is back do not disturb
one another. -/
theorem isolated_of_orderly (page : ι → Int) (d : Sdevdata ι) {s : System ι}
    (run : ReflTransGen (OrderlyStep page) (initial d) s) : Isolated s := by
  have inv := inv_of_run run
  refine ⟨fun t len returned _ => inv.done t len returned, fun e member => ?_⟩
  obtain ⟨page, -, fits⟩ := inv.inside e member
  exact ⟨page, fits⟩

def pages (t : Fin 2) : Int := 4096 * t

def fresh : Sdevdata (Fin 2) := ⟨0, ⟨0, 0⟩, 0⟩

theorem isolated_two_reads :
    ∃ s len₀ len₁, ReflTransGen (OrderlyStep pages) (initial fresh) s ∧ s.proc 0 = .returned len₀ ∧
      s.proc 1 = .returned len₁ ∧ Isolated s := by
  obtain ⟨d₀, log₀, len₀, first⟩ := read_run pages (initial fresh) 0 rfl rfl fun _ => rfl
  obtain ⟨d₁, log₁, len₁, second⟩ := read_run pages
    ⟨d₀, [], log₀, Function.update (fun _ => .calling) 0 (.returned len₀), fun _ => false⟩ 1 rfl rfl
    (Fin.forall_fin_two.mpr ⟨rfl, rfl⟩)
  have run := first.trans second
  exact ⟨_, len₀, len₁, run, rfl, rfl, isolated_of_orderly pages fresh run⟩

/-- A second read that starts while the callback of the first is running redirects its line. One that
starts after the last callback of the first, and before the first has looked at `loops`, lets the first
go on only after ten more callbacks, and the first returns the distance between the two pages. -/
theorem overlapping_reads_mix :
    (∃ s, ReflTransGen (Step pages) (initial fresh) s ∧
      (∃ e ∈ s.log, e.armer = 0 ∧ e.write.place.page = 1) ∧ ¬ Isolated s) ∧
    ∃ s len, ReflTransGen (Step pages) (initial fresh) s ∧ s.proc 0 = .returned len ∧ 4096 ≤ len ∧
      ¬ Isolated s := by
  have first := (run_of_orderly (dates_run pages (initial fresh) 0 rfl)).tail (aims_step pages (initial fresh) 0)
  constructor
  · have started := first.trans (run_of_orderly (setup_run pages _ 0 rfl rfl))
    have fired := started.tail (.callback _ 0 [] [] rfl (.fire _ 0))
    have second := fired.tail (.initTimer _ 1 rfl)
    have dated := second.tail (.setPrejif _ 1 0 rfl)
    have aimed := dated.tail (.setBuf _ 1 rfl)
    have written := aimed.tail (.callback _ 0 [] [] rfl (.write _ 0 default))
    refine ⟨_, written, ⟨_, List.mem_singleton_self _, rfl, rfl⟩, fun isolated => ?_⟩
    exact absurd (isolated.2 _ (List.mem_singleton_self _)).1 (by decide)
  · obtain ⟨d₀, log₀, -, -, -, counted⟩ := counted_run pages ((initial fresh).aims 0) 0 rfl rfl
      (Fin.forall_fin_two.mpr ⟨nofun, nofun⟩) rfl
    have waiting := first.trans (run_of_orderly counted)
    have second := (waiting.trans (run_of_orderly (dates_run pages _ 1 rfl))).tail (aims_step pages _ 1)
    obtain ⟨d₁, log₁, zero, owner, off, recounted⟩ := counted_run pages
      (System.aims ⟨d₀, [], log₀, Function.update ((initial fresh).aims 0).proc 0 .testing, fun _ => false⟩ 1) 1
      rfl rfl (Fin.forall_fin_two.mpr ⟨nofun, nofun⟩) rfl
    have both := second.trans (run_of_orderly recounted)
    have returned := (both.tail (.seesZero _ 0 rfl zero)).tail (.returns _ 0 rfl)
    have distance : toInt32 (pages d₁.buf.page + d₁.buf.off - pages 0) = 4096 + d₁.buf.off := by
      rw [owner]
      exact toInt32_of_range (by simp only [pages]; omega) (by simp only [pages]; omega)
    refine ⟨_, _, returned, rfl, by dsimp only [System.goes]; omega, fun isolated => ?_⟩
    obtain ⟨lines, sum⟩ := isolated.1 0 _ rfl (by dsimp only [System.goes]; omega)
    have short := sum_lens_le (short_of_run returned) 0
    dsimp only [System.goes] at lines sum short
    unfold LOOPS at lines
    omega

end Ldd3.Time.Old
