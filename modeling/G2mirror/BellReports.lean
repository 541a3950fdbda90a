import Mathlib.Data.List.Chain
import G2mirror.Library.Machine
import G2mirror.Control

/-!
# Debounced bells

The calls a main loop makes on a `BellDebouncer`: bells as they ring, and `fire`
at or after the deadline in force. Reports keep the order of the bells as long as
no bell is handled in the place of an expired deadline; such a bell is reported
at once and leaves the older one held.
-/

namespace G2mirror

/-- A call on the debouncer at the monotonic time `now`. -/
inductive BellCall
  | bell (now epoch : ℕ)
  | fire (now : ℕ)

/-- A bell with timestamp `epoch` was reported at `now`. -/
structure BellReport where
  now : ℕ
  epoch : ℕ
  deriving DecidableEq

/-- A debouncer in use. The newest report is the first. -/
structure BellRun where
  debouncer : BellDebouncer
  now : ℕ
  latest : Option ℕ
  reports : List BellReport

namespace BellRun

/-- Before the first bell. -/
def start (window : ℕ) : BellRun := ⟨.new window, 0, none, []⟩

/-- The report, if the call made one, before the others. -/
def report (now : ℕ) (epoch : Option ℕ) (reports : List BellReport) : List BellReport :=
  (epoch.map (BellReport.mk now)).toList ++ reports

/-- One call. Neither clock goes back, and `fire` waits for the deadline. -/
def step (r : BellRun) : BellCall → Option BellRun
  | .bell now epoch =>
    if r.now ≤ now ∧ ∀ e ∈ r.latest, e ≤ epoch then
      let (reported, d) := r.debouncer.onBell now epoch
      some ⟨d, now, some epoch, report now reported r.reports⟩
    else none
  | .fire now =>
    if r.now ≤ now ∧ ∃ t ∈ r.debouncer.deadline, t ≤ now then
      let (reported, d) := r.debouncer.fire now
      some ⟨d, now, r.latest, report now reported r.reports⟩
    else none

/-- Reports are in order and apart, and once nothing is held the last one is the latest bell. -/
structure Sound (window : ℕ) (r : BellRun) : Prop where
  ordered : r.reports.Pairwise fun newer older => older.epoch ≤ newer.epoch
  apart : r.reports.Pairwise fun newer older => older.now + window ≤ newer.now
  caughtUp : r.debouncer.deadline = none → r.reports.head?.map BellReport.epoch = r.latest

/-- No bell is handled at or after the deadline of a held one. -/
def BeforeDeadline (r : BellRun) : BellCall → Prop
  | .bell now _ => ∀ t ∈ r.debouncer.deadline, now < t
  | .fire _ => True

instance (r : BellRun) (call : BellCall) : Decidable (r.BeforeDeadline call) :=
  match call with
  | .bell now _ => inferInstanceAs (Decidable (∀ t ∈ r.debouncer.deadline, now < t))
  | .fire _ => isTrue trivial

/-- A report comes at least a window after an earlier one and does not go back behind it. -/
def Follows (window : ℕ) (newer older : BellReport) : Prop :=
  older.now + window ≤ newer.now ∧ older.epoch ≤ newer.epoch

instance (window : ℕ) : IsTrans BellReport (Follows window) where
  trans a b c hab hbc := by
    unfold Follows at *
    omega

/-- What the calls keep: the window runs from the last report, and the held bell is the latest. -/
structure Kept (window : ℕ) (r : BellRun) : Prop where
  windowed : r.debouncer.window = window
  sent : r.debouncer.lastSent = r.reports.head?.map BellReport.now
  chain : r.reports.IsChain (Follows window)
  past : ∀ last ∈ r.reports.head?, last.now ≤ r.now
  behind : ∀ last ∈ r.reports.head?, ∃ epoch ∈ r.latest, last.epoch ≤ epoch
  held : ∀ epoch ∈ r.debouncer.pending, r.latest = some epoch ∧ r.reports ≠ []
  idle : r.debouncer.pending = none → r.reports.head?.map BellReport.epoch = r.latest

/-- A report a window after the last one keeps everything, with nothing held after it. -/
theorem Kept.reported {window : ℕ} {r : BellRun} (hr : r.Kept window) {now epoch : ℕ}
    {latest : Option ℕ} (hlatest : latest = some epoch)
    (hepoch : ∀ last ∈ r.reports.head?, last.epoch ≤ epoch)
    (hwindow : ∀ last ∈ r.reports.head?, last.now + window ≤ now) :
    Kept window ⟨⟨window, some now, none⟩, now, latest, ⟨now, epoch⟩ :: r.reports⟩ := by
  subst hlatest
  constructor
  · rfl
  · rfl
  · exact hr.chain.cons fun last hlast => ⟨hwindow last hlast, hepoch last hlast⟩
  · rintro _ ⟨⟩
    exact le_rfl
  · rintro _ ⟨⟩
    exact ⟨epoch, rfl, le_rfl⟩
  · rintro _ ⟨⟩
  · exact fun _ => rfl

/-- A held bell is due a window after the last report. -/
theorem Kept.deadline_eq {window : ℕ} {r : BellRun} (hr : r.Kept window) {epoch : ℕ}
    (hheld : r.debouncer.pending = some epoch) :
    r.debouncer.deadline = r.reports.head?.map fun last => last.now + window := by
  unfold BellDebouncer.deadline
  rw [hheld, Option.bind_some, hr.sent, hr.windowed, Option.map_map]
  rfl

/-- A bell before the deadline in force is reported with nothing held, or it is held. -/
theorem Kept.bell {window : ℕ} {r : BellRun} (hr : r.Kept window) {now epoch : ℕ}
    (hnow : r.now ≤ now) (hepoch : ∀ e ∈ r.latest, e ≤ epoch)
    (hbefore : ∀ t ∈ r.debouncer.deadline, now < t) :
    Kept window ⟨(r.debouncer.onBell now epoch).2, now, some epoch,
      report now (r.debouncer.onBell now epoch).1 r.reports⟩ := by
  have hordered : ∀ last ∈ r.reports.head?, last.epoch ≤ epoch := by
    intro last hlast
    obtain ⟨e, he, hle⟩ := hr.behind last hlast
    exact hle.trans (hepoch e he)
  obtain ⟨⟨w, sent, pending⟩, clock, latest, reports⟩ := r
  obtain rfl : w = window := hr.windowed
  obtain rfl : sent = reports.head?.map BellReport.now := hr.sent
  cases reports with
  | nil =>
    cases pending with
    | none => exact hr.reported rfl hordered (by rintro _ ⟨⟩)
    | some held => exact absurd rfl (hr.held held rfl).2
  | cons last reports =>
    have hpast : last.now ≤ clock := hr.past last rfl
    have hnow : clock ≤ now := hnow
    simp only [BellDebouncer.onBell, List.head?_cons, Option.map_some]
    split
    · -- Within the window the bell is held in the place of an older one.
      refine ⟨rfl, rfl, hr.chain, ?_, ?_, ?_, ?_⟩
      · rintro _ ⟨⟩
        exact hpast.trans hnow
      · exact fun last hlast => ⟨epoch, rfl, hordered last hlast⟩
      · rintro _ ⟨⟩
        exact ⟨rfl, List.cons_ne_nil _ _⟩
      · rintro ⟨⟩
    · rename_i hexpired
      cases pending with
      | none =>
        apply hr.reported rfl hordered
        rintro _ ⟨⟩
        omega
      | some held =>
        have hlt := hbefore (last.now + w) (by rw [hr.deadline_eq rfl]; rfl)
        omega

/-- At its deadline the held bell, the latest one, is reported. -/
theorem Kept.fire {window : ℕ} {r : BellRun} (hr : r.Kept window) {now t : ℕ}
    (hdeadline : r.debouncer.deadline = some t) (ht : t ≤ now) :
    Kept window ⟨(r.debouncer.fire now).2, now, r.latest,
      report now (r.debouncer.fire now).1 r.reports⟩ := by
  obtain ⟨⟨w, sent, pending⟩, clock, latest, reports⟩ := r
  obtain rfl : w = window := hr.windowed
  cases pending with
  | none => cases hdeadline
  | some held =>
    obtain ⟨hlatest, -⟩ := hr.held held rfl
    refine hr.reported hlatest ?_ ?_
    · intro last hlast
      obtain ⟨e, he, hle⟩ := hr.behind last hlast
      obtain rfl : held = e := Option.some.inj (hlatest.symm.trans he)
      exact hle
    · intro last hlast
      rw [hr.deadline_eq rfl, hlast, Option.map_some, Option.some.injEq] at hdeadline
      omega

/-- A call before the deadline keeps everything. -/
theorem Kept.step {window : ℕ} {r r' : BellRun} {call : BellCall} (hr : r.Kept window)
    (hcall : r.BeforeDeadline call) (hstep : r.step call = some r') : r'.Kept window := by
  cases call with
  | bell now epoch =>
    obtain ⟨⟨hnow, hepoch⟩, hr'⟩ := Option.ite_none_right_eq_some.mp hstep
    obtain rfl := Option.some.inj hr'
    exact hr.bell hnow hepoch hcall
  | fire now =>
    obtain ⟨⟨-, t, hdeadline, ht⟩, hr'⟩ := Option.ite_none_right_eq_some.mp hstep
    obtain rfl := Option.some.inj hr'
    exact hr.fire hdeadline ht

/-- As long as every bell comes before the deadline in force, reports are in
order, apart, and catch up with the latest bell. -/
theorem bell_reports_sound {window : ℕ} {calls : List BellCall} {r : BellRun}
    (hrun : Machine.run step (start window) calls = some r)
    (halong : Machine.Along step BeforeDeadline (start window) calls) : r.Sound window := by
  have hstart : (start window).Kept window := by
    constructor <;> simp [start, BellDebouncer.new]
  have hr := Machine.run_invariant_along (fun _ _ _ => Kept.step) hstart halong hrun
  have hpairwise := List.isChain_iff_pairwise.mp hr.chain
  constructor
  · exact hpairwise.imp fun h => h.2
  · exact hpairwise.imp fun h => h.1
  · intro hdeadline
    cases hheld : r.debouncer.pending with
    | none => exact hr.idle hheld
    | some held =>
      obtain ⟨-, hne⟩ := hr.held held hheld
      rw [hr.deadline_eq hheld, Option.map_eq_none_iff, List.head?_eq_none_iff] at hdeadline
      exact absurd hdeadline hne

/-- A bell that is handled after the deadline leaves an older one held, which is
reported after it. -/
theorem bell_report_goes_back :
    ∃ r, Machine.run step (start 3000)
        [.bell 0 1000, .bell 500 1500, .bell 3000 4000, .fire 6000] = some r ∧
      ¬ r.Sound 3000 :=
  ⟨⟨⟨3000, some 6000, none⟩, 6000, some 4000, [⟨6000, 1500⟩, ⟨3000, 4000⟩, ⟨0, 1000⟩]⟩, rfl,
    fun h => absurd h.ordered (by decide)⟩

/-- Two bells within the window and one after it. -/
theorem bell_reports_sound_of_three :
    Sound 3000 ⟨⟨3000, some 7000, none⟩, 7000, some 9000,
      [⟨7000, 9000⟩, ⟨3000, 1500⟩, ⟨0, 1000⟩]⟩ := by
  have hrun : Machine.run step (start 3000)
      [.bell 0 1000, .bell 500 1500, .fire 3000, .bell 7000 9000] =
        some ⟨⟨3000, some 7000, none⟩, 7000, some 9000,
          [⟨7000, 9000⟩, ⟨3000, 1500⟩, ⟨0, 1000⟩]⟩ := rfl
  exact bell_reports_sound hrun (by decide)

end BellRun

end G2mirror
